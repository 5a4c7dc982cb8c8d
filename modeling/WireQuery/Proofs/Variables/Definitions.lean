import WireQuery.Proofs.Request.Bound
import WireQuery.Proofs.Variables.Declared

/-!
# Definitions and references

The definitions of a compiled document are the references of its specification, read: each name
with the type that the descriptor at the reference spells.
-/

namespace WireQuery.Group
set_option autoImplicit false

variable {root : Group} {operationName : Option String} {table : ScalarTable} {query : Query}

theorem mem_references_iff {v : VariableRef} :
    v ∈ root.references ↔ ∃ argument, root.Passes argument v := by
  rw [@Requirement.mem_references none root v, reference_mem_ofGroup]

/-- The text of a declared type is read as that type. -/
theorem read_of_definition (h : root.compile operationName table = .ok query)
    {d : VariableDefinition} (hd : d ∈ query.document.definitions) :
    WireType.read d.type.text = .ok d.type := by
  obtain ⟨uses, definitions, -, hdefinitions, rfl⟩ := exists_of_compile h
  obtain ⟨entry, -, hdefinition⟩ := Outcome.exists_mem_of_mapM_eq_ok hdefinitions hd
  have hread := (VariableUses.definition_eq_ok.mp hdefinition).2
  rwa [(WireType.read_eq_ok.mp hread).1]

theorem read_of_reference (h : root.compile operationName table = .ok query)
    {d : VariableDefinition} (hd : d ∈ query.document.definitions) {argument : String}
    {v : VariableRef} (passes : root.Passes argument v) (named : v.written = "$" ++ d.name) :
    WireType.read v.descriptor = .ok d.type := by
  have htext := text_of_definition h hd (mem_references_iff.mpr ⟨argument, passes⟩) named
  rw [← htext]
  exact read_of_definition h hd

/-- The variables that a document declares are those that an argument refers to. -/
theorem mem_definitions_iff (h : root.compile operationName table = .ok query)
    {d : VariableDefinition} :
    d ∈ query.document.definitions ↔ ∃ argument v, root.Passes argument v ∧
      v.written = "$" ++ d.name ∧ WireType.read v.descriptor = .ok d.type := by
  constructor
  · intro hd
    have hname : d.name ∈ root.bareNames :=
      ((firstOrder_of_compile h).complete d.name).mp (List.mem_map_of_mem hd)
    obtain ⟨v, hv, hbare⟩ := List.mem_filterMap.mp hname
    obtain ⟨argument, passes⟩ := mem_references_iff.mp hv
    have named := VariableRef.bareName?_eq_some.mp hbare
    exact ⟨argument, v, passes, named, read_of_reference h hd passes named⟩
  · rintro ⟨argument, v, passes, named, hread⟩
    obtain ⟨d', hd', hname⟩ :=
      exists_definition_of_passes h passes (VariableRef.bareName?_eq_some.mpr named)
    have hread' := read_of_reference h hd' passes (by rw [hname]; exact named)
    rw [hread] at hread'
    have heq : d = d' := by
      cases d
      cases d'
      cases hname
      cases hread'
      rfl
    rw [heq]
    exact hd'

end WireQuery.Group
