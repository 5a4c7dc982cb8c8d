import Mathlib.Data.Finset.Card
import WireQuery.Proofs.Variables.FirstOrder

/-!
# Histories of uses

Uses of variables are recorded one after another, and a refused one is passed over. The record then
holds each variable where it was first used, with the descriptor of that use, whatever came behind:
a use of a known variable is a repetition or is refused, and either way the record stays as it is.
-/

namespace WireQuery
set_option autoImplicit false

/-- The names in the order of first meetings are as many as the list has different names. -/
theorem FirstOrder.length_eq {seen names : List String} (h : FirstOrder seen names) :
    names.length = seen.toFinset.card := by
  have hsame : names.toFinset = seen.toFinset := by
    ext name
    rw [List.mem_toFinset, List.mem_toFinset, h.complete]
  rw [← hsame, List.toFinset_card_of_nodup h.distinct]

namespace VariableUses

/-- The record after one more use, which leaves it as it is if it is refused. -/
def after (uses : VariableUses) (use : String × String) : VariableUses :=
  match uses.record use.1 use.2 with
  | .ok next => next
  | .error _ => uses

/-- The record after uses one after another. -/
def afterAll (uses : VariableUses) (history : List (String × String)) : VariableUses :=
  history.foldl after uses

/-- The uses that are left of a history without those that are refused and those that repeat an
earlier one. -/
def newUses (uses : VariableUses) : List (String × String) → List (String × String)
  | [] => []
  | use :: rest =>
    match uses.record use.1 use.2 with
    | .error _ => uses.newUses rest
    | .ok next => if next = uses then uses.newUses rest else use :: next.newUses rest

variable {uses : VariableUses} {use : String × String}

theorem after_of_known (h : use.1 ∈ Keyed.keys uses.entries) : uses.after use = uses := by
  unfold after
  split
  · next next hnext =>
    rcases record_eq_ok hnext with ⟨hnone, -⟩ | ⟨-, heq⟩
    · exact absurd h (get?_eq_none_iff.mp hnone)
    · exact heq
  · rfl

theorem record_of_unknown (h : use.1 ∉ Keyed.keys uses.entries) :
    uses.record use.1 use.2 = .ok ⟨uses.entries ++ [use]⟩ := by
  rw [record, get?_eq_none_iff.mpr h]

theorem entries_after (uses : VariableUses) (use : String × String) :
    (uses.after use).entries =
      if use.1 ∈ Keyed.keys uses.entries then uses.entries else uses.entries ++ [use] := by
  by_cases h : use.1 ∈ Keyed.keys uses.entries
  · rw [after_of_known h, if_pos h]
  · rw [after, record_of_unknown h, if_neg h]

theorem firstOrder_after {seen : List String} (h : FirstOrder seen (Keyed.keys uses.entries))
    (use : String × String) :
    FirstOrder (seen ++ [use.1]) (Keyed.keys (uses.after use).entries) := by
  rw [entries_after]
  split
  · next known => exact h.again known
  · next unknown =>
    rw [Keyed.keys_append]
    exact h.fresh unknown

/-- A variable keeps the descriptor that it has. -/
theorem get?_after (uses : VariableUses) (use : String × String) (name : String) :
    (uses.after use).get? name = (uses.entries ++ [use]).lookup name := by
  rw [get?, entries_after]
  split
  · next known =>
    rw [List.lookup_append]
    cases hname : uses.entries.lookup name with
    | some first => rfl
    | none =>
      have hne : name ≠ use.1 := by
        rintro rfl
        exact get?_eq_none_iff.mp hname known
      rw [Keyed.lookup_cons_eq, if_neg hne]
      rfl
  · rfl

variable {history : List (String × String)}

@[simp] theorem afterAll_cons (uses : VariableUses) (use : String × String)
    (rest : List (String × String)) :
    uses.afterAll (use :: rest) = (uses.after use).afterAll rest := rfl

@[simp] theorem afterAll_append_singleton (uses : VariableUses) (before : List (String × String))
    (use : String × String) : uses.afterAll (before ++ [use]) = (uses.afterAll before).after use :=
  List.foldl_append

theorem firstOrder_afterAll (history : List (String × String)) :
    FirstOrder (Keyed.keys history) (Keyed.keys (empty.afterAll history).entries) := by
  induction history using List.reverseRecOn with
  | nil => exact .nil
  | append_singleton before use ih =>
    rw [afterAll_append_singleton, Keyed.keys_append]
    exact firstOrder_after ih use

theorem get?_afterAll (history : List (String × String)) (name : String) :
    (empty.afterAll history).get? name = history.lookup name := by
  induction history using List.reverseRecOn with
  | nil => rfl
  | append_singleton before use ih =>
    rw [afterAll_append_singleton, get?_after, List.lookup_append, ← get?, ih,
      List.lookup_append]

@[simp] theorem mem_keys_afterAll {name : String} :
    name ∈ Keyed.keys (empty.afterAll history).entries ↔ name ∈ Keyed.keys history :=
  (firstOrder_afterAll history).complete name

@[simp] theorem afterAll_newUses (uses : VariableUses) (history : List (String × String)) :
    uses.afterAll (uses.newUses history) = uses.afterAll history := by
  induction history generalizing uses with
  | nil => rfl
  | cons use rest ih =>
    rw [afterAll_cons, newUses]
    cases hrecord : uses.record use.1 use.2 with
    | error e =>
      have hafter : uses.after use = uses := by rw [after, hrecord]
      rw [hafter]
      exact ih uses
    | ok next =>
      have hafter : uses.after use = next := by rw [after, hrecord]
      rw [hafter]
      dsimp only
      split
      · next heq =>
        rw [heq]
        exact ih uses
      · rw [afterAll_cons, hafter]
        exact ih next

theorem record_afterAll_eq_error {before : List (String × String)} {name descriptor : String}
    {e : CompileError} :
    (empty.afterAll before).record name descriptor = .error e ↔
      ∃ first, before.lookup name = some first ∧ first ≠ descriptor ∧
        e = .typeConflict name first descriptor := by
  rw [record_eq_error, get?_afterAll]

/-- Only the first use of a variable changes the record. -/
theorem after_afterAll_eq_iff {before : List (String × String)} {use : String × String} :
    (empty.afterAll before).after use = empty.afterAll before ↔ use.1 ∈ Keyed.keys before := by
  rw [← mem_keys_afterAll]
  constructor
  · intro hsame
    by_contra hunknown
    have hentries := congrArg entries hsame
    rw [entries_after, if_neg hunknown] at hentries
    simp at hentries
  · exact after_of_known

/-- A history leaves each variable recorded once, in the order of the first uses and with the
descriptor of the first use, and this is also what a lookup finds. A use is refused if and only if
the first use of its variable before it has another descriptor, which the error names first. The
record changes at the first use of a variable and at no other use, so without the uses that are
refused or repeated it is the same. -/
theorem history_exact (history : List (String × String)) :
    FirstOrder (Keyed.keys history) (Keyed.keys (empty.afterAll history).entries) ∧
    (∀ entry ∈ (empty.afterAll history).entries, history.lookup entry.1 = some entry.2) ∧
    (empty.afterAll history).size = (Keyed.keys history).toFinset.card ∧
    (∀ name, (empty.afterAll history).get? name = history.lookup name) ∧
    (∀ before name descriptor rest, history = before ++ (name, descriptor) :: rest →
      (∀ e, (empty.afterAll before).record name descriptor = .error e ↔
        ∃ first, before.lookup name = some first ∧ first ≠ descriptor ∧
          e = .typeConflict name first descriptor) ∧
      ((empty.afterAll before).after (name, descriptor) = empty.afterAll before ↔
        name ∈ Keyed.keys before)) ∧
    empty.afterAll (empty.newUses history) = empty.afterAll history := by
  have order := firstOrder_afterAll history
  refine ⟨order, ?_, ?_, get?_afterAll history, ?_, afterAll_newUses empty history⟩
  · intro entry hentry
    rw [← get?_afterAll]
    exact Keyed.lookup_eq_some_of_mem order.distinct hentry
  · rw [← order.length_eq, Keyed.length_keys, size]
  · intro before name descriptor rest _
    exact ⟨fun _ => record_afterAll_eq_error, after_afterAll_eq_iff⟩

/-- A use that is refused neither overwrites the first nor keeps the next one out. -/
example :
    (empty.afterAll
      [("zeta", "ID!"), ("zeta", "Int"), ("alpha", "Int"), ("zeta", "ID!")]).entries =
      [("zeta", "ID!"), ("alpha", "Int")] := by decide

end VariableUses

end WireQuery
