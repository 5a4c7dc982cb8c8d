import WireQuery.Proofs.Compile.Acceptance
import WireQuery.Proofs.Variables.FirstOrder
import WireQuery.Proofs.Variables.References
import WireQuery.Proofs.WireType.RoundTrip

/-!
# Declared variables

A compiled document declares exactly the variables that its specification refers to, in the order
of their first references and with the types that all references give them.
-/

namespace WireQuery
set_option autoImplicit false

namespace VariableUses

theorem definition_eq_ok {entry : String × String} {d : VariableDefinition} :
    definition entry = .ok d ↔ d.name = entry.1 ∧ WireType.read entry.2 = .ok d.type := by
  unfold definition
  cases WireType.read entry.2 with
  | error malformed => simp
  | ok type =>
    simp only [Except.ok.injEq]
    constructor
    · rintro rfl
      exact ⟨rfl, rfl⟩
    · rintro ⟨hname, htype⟩
      rw [← hname, htype]

theorem names_of_definitions {uses : VariableUses} {definitions : List VariableDefinition}
    (h : uses.definitions = .ok definitions) :
    definitions.map VariableDefinition.name = Keyed.keys uses.entries := by
  apply Outcome.map_of_mapM_eq_ok h
  intro entry d hd
  exact (definition_eq_ok.mp hd).1

end VariableUses

namespace Document

variable {document : Document}

theorem definition?_eq_some (distinct : (document.definitions.map VariableDefinition.name).Nodup)
    {d : VariableDefinition} (hd : d ∈ document.definitions) :
    document.definition? d.name = some d :=
  Keyed.find?_eq_some_of_mem distinct hd

theorem definition?_eq_none {name : String}
    (h : name ∉ document.definitions.map VariableDefinition.name) :
    document.definition? name = none := by
  apply List.find?_eq_none.mpr
  intro d hd heq
  rw [← eq_of_beq heq] at h
  exact h (List.mem_map_of_mem hd)

end Document

namespace Group

variable {root : Group} {operationName : Option String} {table : ScalarTable} {query : Query}

/-- The bare names of all references, in pre-order. -/
def bareNames (root : Group) : List String := root.references.filterMap VariableRef.bareName?

theorem firstOrder_of_compile (h : root.compile operationName table = .ok query) :
    FirstOrder root.bareNames (query.document.definitions.map VariableDefinition.name) := by
  obtain ⟨uses, definitions, huses, hdefinitions, rfl⟩ := exists_of_compile h
  have hnames : (Requirement.mentions (Requirement.ofGroup operationName root)).map Prod.fst =
      root.bareNames := by
    rw [Requirement.mentions_eq_filterMap, Requirement.references_ofGroup, List.map_filterMap,
      bareNames]
    congr 1
    funext v
    cases v.bareName? <;> rfl
  have horder := Requirement.firstOrder_checkAll FirstOrder.nil huses
  rw [hnames, List.nil_append] at horder
  rw [VariableUses.names_of_definitions hdefinitions]
  exact horder

/-- The text of a declared type is the descriptor at each reference to the variable. -/
theorem text_of_definition (h : root.compile operationName table = .ok query)
    {d : VariableDefinition} (hd : d ∈ query.document.definitions) {v : VariableRef}
    (hv : v ∈ root.references) (named : v.written = "$" ++ d.name) :
    d.type.text = v.descriptor := by
  have compilable := compilable_of_compile h
  obtain ⟨uses, definitions, huses, hdefinitions, rfl⟩ := exists_of_compile h
  obtain ⟨⟨bare, descriptor⟩, hentry, hdefinition⟩ :=
    Outcome.exists_mem_of_mapM_eq_ok hdefinitions hd
  obtain ⟨hname, hread⟩ := VariableUses.definition_eq_ok.mp hdefinition
  obtain ⟨htext, -⟩ := WireType.read_eq_ok.mp hread
  have hmentioned := Requirement.mem_mentions_of_checkAll huses hentry
  obtain ⟨r, hr, hmention⟩ := List.mem_filterMap.mp hmentioned
  cases r with
  | selects path children => cases hmention
  | valid role name => cases hmention
  | reference first =>
    obtain ⟨hbare, hfirst⟩ := Requirement.mention?_reference.mp hmention
    have hsecond : Requirement.reference v ∈ Requirement.ofGroup operationName root :=
      Requirement.mem_references.mp hv
    obtain ⟨argument, hpasses⟩ := reference_mem_ofGroup.mp hsecond
    obtain ⟨argument', hpasses'⟩ := reference_mem_ofGroup.mp hr
    rw [hname] at named
    rw [htext, ← hfirst]
    exact compilable.agreement bare argument' argument first v hpasses' hpasses
      (VariableRef.bareName?_eq_some.mp hbare) named

end Group

/-- A compiled document declares each variable that the specification refers to once, in the order
of first references, and no other; its type is spelled by the descriptor at every reference. The
arguments in the selections name the declared variables, all of them and no others, and a
declaration is found by its name. -/
theorem Group.definitions_exact {root : Group} {operationName : Option String}
    {table : ScalarTable} {query : Query}
    (compiled : root.compile operationName table = .ok query) :
    FirstOrder root.bareNames (query.document.definitions.map VariableDefinition.name) ∧
    (∀ d ∈ query.document.definitions, ∀ v ∈ root.references,
      v.written = "$" ++ d.name → d.type.text = v.descriptor) ∧
    (∀ name, (∃ a ∈ query.document.arguments, a.variableName = name) ↔
      ∃ d ∈ query.document.definitions, d.name = name) ∧
    (∀ d ∈ query.document.definitions, query.document.definition? d.name = some d) ∧
    (∀ name, (∀ d ∈ query.document.definitions, d.name ≠ name) →
      query.document.definition? name = none) := by
  have horder := firstOrder_of_compile compiled
  refine ⟨horder, ?_, ?_, ?_, ?_⟩
  · intro d hd v hv named
    exact text_of_definition compiled hd hv named
  · intro name
    have harguments : (∃ a ∈ query.document.arguments, a.variableName = name) ↔
        some name ∈ query.document.arguments.map fun a => some a.variableName := by
      simp [List.mem_map]
    have hnames : (∃ d ∈ query.document.definitions, d.name = name) ↔
        name ∈ query.document.definitions.map VariableDefinition.name := by
      simp [List.mem_map]
    rw [harguments, hnames, horder.complete, variableNames_of_compile compiled, bareNames,
      List.mem_filterMap, List.mem_map]
  · intro d hd
    exact Document.definition?_eq_some horder.distinct hd
  · intro name hname
    apply Document.definition?_eq_none
    rintro hmem
    obtain ⟨d, hd, rfl⟩ := List.mem_map.mp hmem
    exact hname d hd rfl

/-- Orders of a period with their returns in it; both ends of the period are used twice. -/
def ordersBetween : Group :=
  .ofList [("orders", .group
      (some (.ofList none [("since", ⟨"$from", "Date!"⟩), ("first", ⟨"$count", "Int"⟩)]))
      [("id", .scalar none "ID!"),
        ("returns", .scalar (some (.ofList none [("since", ⟨"$from", "Date!"⟩),
          ("until", ⟨"$to", "[Date!]"⟩)])) "[ID!]")]),
    ("total", .scalar (some (.ofList none [("until", ⟨"$to", "[Date!]"⟩)])) "Float")]

theorem definitions_exact_orders :
    ∃ query, ordersBetween.compile none .builtin = .ok query ∧
      ordersBetween.bareNames = ["from", "count", "from", "to", "to"] ∧
      query.document.definitions = [⟨"from", .nonNull (.named "Date")⟩, ⟨"count", .named "Int"⟩,
        ⟨"to", .list (.nonNull (.named "Date"))⟩] ∧
      FirstOrder ["from", "count", "from", "to", "to"] ["from", "count", "to"] ∧
      (∀ name, (∃ a ∈ query.document.arguments, a.variableName = name) ↔
        ∃ d ∈ query.document.definitions, d.name = name) := by
  have compiled : ordersBetween.compile none .builtin = .ok ⟨⟨none,
      [⟨"from", .nonNull (.named "Date")⟩, ⟨"count", .named "Int"⟩,
        ⟨"to", .list (.nonNull (.named "Date"))⟩], Node.selections ordersBetween.children⟩,
      Node.shape .builtin ordersBetween.children, .builtin⟩ := by with_unfolding_all rfl
  have hnames : ordersBetween.bareNames = ["from", "count", "from", "to", "to"] := by rfl
  obtain ⟨horder, -, harguments, -⟩ := Group.definitions_exact compiled
  rw [hnames] at horder
  exact ⟨_, compiled, hnames, rfl, horder, harguments⟩

end WireQuery
