import WireQuery.Proofs.Compile.Acceptance
import WireQuery.Proofs.Compile.Met
import WireQuery.Proofs.Request.Accepted

/-!
# Bound arguments

A document declares every variable that its specification refers to, so bindings that are accepted
hold a value for each argument.
-/

namespace WireQuery
set_option autoImplicit false

variable {root : Group} {operationName : Option String} {table : ScalarTable} {query : Query}

namespace Group

theorem exists_definition_of_passes (h : root.compile operationName table = .ok query)
    {argument : String} {v : VariableRef} (passes : root.Passes argument v) {bare : String}
    (hbare : v.bareName? = some bare) : ∃ d ∈ query.document.definitions, d.name = bare := by
  obtain ⟨uses, definitions, huses, hdefinitions, rfl⟩ := exists_of_compile h
  have hmention : (bare, v.descriptor) ∈
      Requirement.mentions (Requirement.ofGroup operationName root) :=
    List.mem_filterMap.mpr ⟨.reference v, reference_mem_ofGroup.mpr ⟨argument, passes⟩,
      Requirement.mention?_reference.mpr ⟨hbare, rfl⟩⟩
  obtain ⟨first, hfirst⟩ := Keyed.exists_lookup_of_mem hmention
  have hget : uses.get? bare = some first := by
    rw [Requirement.get?_of_checkAll huses]
    exact hfirst
  obtain ⟨d, hd, hdefinition⟩ :=
    Outcome.exists_of_mapM_eq_ok hdefinitions (VariableUses.mem_entries_of_get? hget)
  refine ⟨d, hd, ?_⟩
  unfold VariableUses.definition at hdefinition
  split at hdefinition <;> cases hdefinition
  rfl

/-- Every reference that passes an argument names a declared variable. -/
theorem exists_declared_of_passes (h : root.compile operationName table = .ok query)
    {argument : String} {v : VariableRef} (passes : root.Passes argument v) :
    ∃ d ∈ query.document.definitions, v.written = "$" ++ d.name := by
  obtain ⟨bare, named, -⟩ := (compilable_of_compile h).references argument v passes
  obtain ⟨d, hd, rfl⟩ :=
    exists_definition_of_passes h passes (VariableRef.bareName?_eq_some.mpr named)
  exact ⟨d, hd, named⟩

end Group

/-- Accepted bindings hold a value for every argument that the specification passes. -/
theorem Group.exists_value_of_passes (compiled : root.compile operationName table = .ok query)
    {bindings : Bindings}
    (accepted : query.document.checkBindings query.table bindings = .ok ()) {argument : String}
    {v : VariableRef} (passes : root.Passes argument v) :
    ∃ bare j, v.written = "$" ++ bare ∧ bindings.get? bare = some j := by
  obtain ⟨d, hd, named⟩ := exists_declared_of_passes compiled passes
  obtain ⟨hbound, -⟩ := Document.checkBindings_eq_ok.mp accepted
  obtain ⟨j, hj, -⟩ := hbound d hd
  exact ⟨d.name, j, named, hj⟩

end WireQuery
