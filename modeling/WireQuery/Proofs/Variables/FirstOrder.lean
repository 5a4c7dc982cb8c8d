import WireQuery.Proofs.Compile.Uses
import WireQuery.Proofs.FirstOrder

/-!
# The order of first uses

Checking requirements keeps the record of variables in the order in which they are first used.
-/

namespace WireQuery
set_option autoImplicit false

namespace VariableUses

theorem get?_eq_none_iff {uses : VariableUses} {name : String} :
    uses.get? name = none ↔ name ∉ Keyed.keys uses.entries := by
  constructor
  · intro hnone hmem
    obtain ⟨⟨name, descriptor⟩, hentry, rfl⟩ := List.mem_map.mp hmem
    obtain ⟨found, hfound⟩ := Keyed.exists_lookup_of_mem hentry
    rw [get?, hfound] at hnone
    cases hnone
  · exact Keyed.lookup_eq_none_of_not_mem

theorem firstOrder_record {uses uses' : VariableUses} {seen : List String}
    {name descriptor : String} (h : FirstOrder seen (Keyed.keys uses.entries))
    (recorded : uses.record name descriptor = .ok uses') :
    FirstOrder (seen ++ [name]) (Keyed.keys uses'.entries) := by
  rcases record_eq_ok recorded with ⟨hnone, hentries⟩ | ⟨hget, rfl⟩
  · rw [hentries, Keyed.keys_append]
    exact h.fresh (get?_eq_none_iff.mp hnone)
  · exact h.again (List.mem_map_of_mem (f := Prod.fst) (mem_entries_of_get? hget))

end VariableUses

namespace Requirement

theorem firstOrder_check {uses uses' : VariableUses} {seen : List String} {r : Requirement}
    (h : FirstOrder seen (Keyed.keys uses.entries)) (checked : check uses r = .ok uses') :
    FirstOrder (seen ++ (mentions [r]).map Prod.fst) (Keyed.keys uses'.entries) := by
  cases r with
  | selects path children =>
    have hmention : (mentions [selects path children]).map Prod.fst = [] := rfl
    simp only [check] at checked
    split at checked <;> cases checked
    rwa [hmention, List.append_nil]
  | valid role name =>
    have hmention : (mentions [valid role name]).map Prod.fst = [] := rfl
    obtain ⟨-, -, heq⟩ := Outcome.bind_eq_ok.mp checked
    cases heq
    rwa [hmention, List.append_nil]
  | reference v =>
    obtain ⟨bare, hbare, hrecord⟩ := Outcome.bind_eq_ok.mp checked
    have hmention : (mentions [reference v]).map Prod.fst = [bare] := by
      simp [mentions, mention?, (bareName_eq_ok.mp hbare).1]
    rw [hmention]
    exact VariableUses.firstOrder_record h hrecord

theorem firstOrder_checkAll {requirements : List Requirement} {uses uses' : VariableUses}
    {seen : List String} (h : FirstOrder seen (Keyed.keys uses.entries))
    (checked : checkAll uses requirements = .ok uses') :
    FirstOrder (seen ++ (mentions requirements).map Prod.fst) (Keyed.keys uses'.entries) := by
  induction requirements generalizing uses seen with
  | nil =>
    cases checked
    simpa [mentions] using h
  | cons r rest ih =>
    unfold checkAll at checked
    rw [List.foldlM_cons] at checked
    obtain ⟨next, hr, hrest⟩ := Outcome.bind_eq_ok.mp checked
    have hstep := ih (firstOrder_check h hr) hrest
    have hsplit : mentions (r :: rest) = mentions [r] ++ mentions rest :=
      mentions_append [r] rest
    rwa [hsplit, List.map_append, ← List.append_assoc]

end Requirement

end WireQuery
