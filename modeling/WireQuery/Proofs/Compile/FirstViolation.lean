import WireQuery.Proofs.Compile.FirstFault
import WireQuery.Proofs.Compile.Met

/-!
# The first violation

Compiling fails exactly with the first violation of a specification. The descriptors of variables
are read after the tree has been checked, and the first refused entry of the record is the first
refused reference of the tree.
-/

namespace WireQuery
set_option autoImplicit false

namespace Group

open Requirement

variable {root : Group}

/-- Once the tree is clean, every reference names a variable. -/
theorem named_of_checkAll {uses : VariableUses}
    (h : checkAll .empty (root.placed.map Prod.snd) = .ok uses) {place : Place} {v : VariableRef}
    (required : RequiredAt [] root.children place (.reference v)) :
    ∃ bare, v.bareName? = some bare ∧ Name.isValid bare = true :=
  (met_of_checkAll h).references v (List.mem_map_of_mem (f := Prod.snd) (mem_placed.mpr required))

theorem definition_eq_error {entry : String × String} {e : CompileError} :
    VariableUses.definition entry = .error e ↔
      ∃ malformed, WireType.read entry.2 = .error malformed ∧ e = .malformedType malformed := by
  unfold VariableUses.definition
  cases hread : WireType.read entry.2 with
  | ok type => simp
  | error malformed =>
    simp only [Except.error.injEq]
    constructor
    · rintro rfl
      exact ⟨malformed, rfl, rfl⟩
    · rintro ⟨malformed', rfl, rfl⟩
      rfl

theorem definition_isOk (entry : String × String) :
    (VariableUses.definition entry).isOk = (WireType.read entry.2).isOk := by
  unfold VariableUses.definition
  cases WireType.read entry.2 <;> rfl

/-- The declarations fail with the first refused descriptor of all mentions. -/
theorem definitions_eq_error {uses : VariableUses} {requirements : List Requirement}
    (h : checkAll .empty requirements = .ok uses) {e : CompileError} :
    uses.definitions = .error e ↔ ∃ m,
      (mentions requirements).find? (fun m => !(WireType.read m.2).isOk) = some m ∧
        ∃ malformed, WireType.read m.2 = .error malformed ∧ e = .malformedType malformed := by
  unfold VariableUses.definitions
  rw [Outcome.mapM_eq_error]
  simp only [definition_isOk, definition_eq_error, find?_entries_of_checkAll h]
  rfl

theorem isOk_of_read {descriptor : String} {malformed : WireType.Malformed}
    (h : WireType.read descriptor = .error malformed) :
    (!(WireType.read descriptor).isOk) = true := by
  rw [h]
  rfl

theorem exists_refused_of_definitions {uses : VariableUses}
    (h : checkAll .empty (root.placed.map Prod.snd) = .ok uses) {e : CompileError}
    (hdefinitions : uses.definitions = .error e) :
    ∃ place v malformed, RequiredAt [] root.children place (.reference v) ∧
      WireType.read v.descriptor = .error malformed ∧ e = .malformedType malformed ∧
      ∀ place' v' malformed', RequiredAt [] root.children place' (.reference v') →
        WireType.read v'.descriptor = .error malformed' → ¬ place' < place := by
  obtain ⟨⟨bare, descriptor⟩, hfind, malformed, hread, rfl⟩ :=
    (definitions_eq_error h).mp hdefinitions
  obtain ⟨place, v, hmem, hmention, -, hleast⟩ := (find?_mentions root.ascending_placed).mp hfind
  obtain ⟨-, rfl⟩ := mention?_reference.mp hmention
  refine ⟨place, v, malformed, mem_placed.mp hmem, hread, rfl, ?_⟩
  intro place' v' malformed' required hread'
  obtain ⟨bare', hbare', -⟩ := named_of_checkAll h required
  exact hleast place' v' (bare', v'.descriptor) (mem_placed.mpr required)
    (mention?_reference.mpr ⟨hbare', rfl⟩) (isOk_of_read hread')

theorem not_refused_of_definitions {uses : VariableUses}
    (h : checkAll .empty (root.placed.map Prod.snd) = .ok uses)
    {definitions : List VariableDefinition} (hdefinitions : uses.definitions = .ok definitions)
    {place : Place} {v : VariableRef} (required : RequiredAt [] root.children place (.reference v))
    (malformed : WireType.Malformed) : WireType.read v.descriptor ≠ .error malformed := by
  intro hread
  obtain ⟨bare, hbare, -⟩ := named_of_checkAll h required
  have hmention : (bare, v.descriptor) ∈ mentions (root.placed.map Prod.snd) :=
    List.mem_filterMap.mpr ⟨.reference v,
      List.mem_map_of_mem (f := Prod.snd) (mem_placed.mpr required),
      mention?_reference.mpr ⟨hbare, rfl⟩⟩
  have hsome : ((mentions (root.placed.map Prod.snd)).find?
      fun m => !(WireType.read m.2).isOk).isSome = true :=
    List.find?_isSome.mpr ⟨(bare, v.descriptor), hmention, isOk_of_read hread⟩
  obtain ⟨m, hm⟩ := Option.isSome_iff_exists.mp hsome
  cases hfirst : WireType.read m.2 with
  | ok type =>
    have hrefused := List.find?_some hm
    rw [hfirst] at hrefused
    cases hrefused
  | error first =>
    rw [(definitions_eq_error h).mpr ⟨m, hm, first, hfirst, rfl⟩] at hdefinitions
    cases hdefinitions

theorem compile_of_invalid {name : String} (invalid : Name.isValid name = false)
    (table : ScalarTable) :
    root.compile (some name) table = .error (.invalidName .operation name) := by
  have hcheck : checkAll .empty (ofGroup (some name) root) =
      .error (.invalidName .operation name) := by
    rw [ofGroup_eq]
    simp [checkAll, check, checkName, invalid, bind, Except.bind]
  unfold Group.compile
  rw [hcheck]
  rfl

/-- The outcome of a compilation whose operation has a valid name or none. -/
theorem compile_eq {operationName : Option String}
    (valid : ∀ name, operationName = some name → Name.isValid name = true) (table : ScalarTable) :
    root.compile operationName table =
      checkAll .empty (root.placed.map Prod.snd) >>= fun uses =>
        uses.definitions >>= fun definitions =>
          .ok ⟨⟨operationName, definitions, Node.selections root.children⟩,
            Node.shape table root.children, table⟩ := by
  have hcheck : checkAll .empty (ofGroup operationName root) =
      checkAll .empty (root.placed.map Prod.snd) := by
    rw [ofGroup_eq]
    cases operationName with
    | none => rfl
    | some name =>
      simp only [Option.map_some, Option.toList_some, List.singleton_append, checkAll,
        List.foldlM_cons, check, checkName, valid name rfl]
      rfl
  unfold Group.compile
  rw [hcheck]
  rfl

theorem exists_invalid_or_valid (operationName : Option String) :
    (∃ name, operationName = some name ∧ Name.isValid name = false) ∨
      ∀ name, operationName = some name → Name.isValid name = true := by
  cases operationName with
  | none =>
    refine Or.inr ?_
    intro name h
    cases h
  | some name =>
    by_cases hvalid : Name.isValid name = true
    · refine Or.inr ?_
      intro name' h
      cases h
      exact hvalid
    · exact Or.inl ⟨name, rfl, Bool.eq_false_iff.mpr hvalid⟩

variable {operationName : Option String} {table : ScalarTable}

theorem not_violation_of_compile {query : Query}
    (h : root.compile operationName table = .ok query) (place : Place) (e : CompileError) :
    ¬ Violation operationName root place e := by
  rcases exists_invalid_or_valid operationName with ⟨name, rfl, hinvalid⟩ | hvalid
  · rw [compile_of_invalid hinvalid] at h
    cases h
  · rw [compile_eq hvalid] at h
    obtain ⟨uses, huses, h⟩ := Outcome.bind_eq_ok.mp h
    obtain ⟨definitions, hdefinitions, -⟩ := Outcome.bind_eq_ok.mp h
    intro hviolation
    cases hviolation with
    | operation given invalid =>
      rw [hvalid _ given] at invalid
      cases invalid
    | tree required fault => exact not_fault_of_checkAll huses required _ fault
    | descriptor required refused =>
      exact not_refused_of_definitions huses hdefinitions required _ refused

theorem exists_firstViolation_of_compile {e : CompileError}
    (h : root.compile operationName table = .error e) :
    ∃ place, FirstViolation operationName root place e := by
  rcases exists_invalid_or_valid operationName with ⟨name, rfl, hinvalid⟩ | hvalid
  · rw [compile_of_invalid hinvalid] at h
    cases h
    refine ⟨[0], .operation rfl hinvalid, ?_⟩
    intro place' e' hviolation hlt
    cases hviolation <;> simp [List.cons_lt_cons_iff] at hlt
  · rw [compile_eq hvalid] at h
    rcases Outcome.bind_eq_error.mp h with h | ⟨uses, huses, h⟩
    · obtain ⟨place, r, required, hfault, hleast⟩ := exists_fault_of_checkAll h
      refine ⟨1 :: place, .tree required hfault, ?_⟩
      intro place' e' hviolation hlt
      cases hviolation with
      | operation given invalid =>
        rw [hvalid _ given] at invalid
        cases invalid
      | tree required' fault' =>
        exact hleast _ _ _ required' fault' (by simpa [List.cons_lt_cons_iff] using hlt)
      | descriptor required' refused' => simp [List.cons_lt_cons_iff] at hlt
    · rcases Outcome.bind_eq_error.mp h with h | ⟨definitions, -, h⟩
      · obtain ⟨place, v, malformed, required, hread, rfl, hleast⟩ :=
          exists_refused_of_definitions huses h
        refine ⟨2 :: place, .descriptor required hread, ?_⟩
        intro place' e' hviolation hlt
        cases hviolation with
        | operation given invalid =>
          rw [hvalid _ given] at invalid
          cases invalid
        | tree required' fault' => exact not_fault_of_checkAll huses required' _ fault'
        | descriptor required' refused' =>
          exact hleast _ _ _ required' refused' (by simpa [List.cons_lt_cons_iff] using hlt)
      · cases h

theorem violation_unique {place : Place} {e e' : CompileError}
    (h : Violation operationName root place e) (h' : Violation operationName root place e') :
    e = e' := by
  cases h with
  | operation given invalid =>
    cases h' with
    | operation given' invalid' =>
      rw [given] at given'
      cases given'
      rfl
  | tree required fault =>
    cases h' with
    | tree required' fault' =>
      have hsame := eq_of_ascending root.ascending_placed (mem_placed.mpr required)
        (mem_placed.mpr required')
      rw [← hsame] at fault'
      exact fault_unique fault fault'
  | descriptor required refused =>
    cases h' with
    | descriptor required' refused' =>
      have hsame := eq_of_ascending root.ascending_placed (mem_placed.mpr required)
        (mem_placed.mpr required')
      cases hsame
      rw [refused] at refused'
      cases refused'
      rfl

theorem compile_eq_error_iff {e : CompileError} :
    root.compile operationName table = .error e ↔
      ∃ place, FirstViolation operationName root place e := by
  constructor
  · exact exists_firstViolation_of_compile
  · rintro ⟨place, hviolation, hleast⟩
    cases h : root.compile operationName table with
    | ok query => exact absurd hviolation (not_violation_of_compile h place e)
    | error e' =>
      obtain ⟨place', hviolation', hleast'⟩ := exists_firstViolation_of_compile h
      have hplace : place = place' :=
        List.le_antisymm (hleast place' e' hviolation') (hleast' place e hviolation)
      subst hplace
      rw [violation_unique hviolation hviolation']

end Group

end WireQuery
