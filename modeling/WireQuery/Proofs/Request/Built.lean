import WireQuery.Proofs.Request.Accepted
import WireQuery.Proofs.Variables.Definitions
import WireQuery.Request.Basic

/-!
# Requests that can be built

The declarations of a document are the references of its specification, so a request can be built
exactly if every reference is given a value that fits the descriptor written there, and nothing
else is given a value.
-/

namespace WireQuery
set_option autoImplicit false

/-- The bindings hold a value for the reference, and it fits the descriptor written there. -/
def VariableRef.Bound (table : ScalarTable) (bindings : Bindings) (v : VariableRef) : Prop :=
  ∃ bare type j, v.written = "$" ++ bare ∧ bindings.get? bare = some j ∧
    WireType.read v.descriptor = .ok type ∧ type.Fits (table.kindOf type.baseName) j

/-- The bindings hold a value for each reference of the specification, and no other value. -/
structure Group.BoundBy (table : ScalarTable) (bindings : Bindings) (root : Group) : Prop where
  bound : ∀ argument v, root.Passes argument v → v.Bound table bindings
  used : ∀ name ∈ Keyed.keys bindings.entries,
    ∃ argument v, root.Passes argument v ∧ v.written = "$" ++ name

variable {root : Group} {operationName : Option String} {table : ScalarTable} {query : Query}

/-- Bindings pass their checks exactly if the specification is bound by them. -/
theorem Group.checkBindings_eq_ok (compiled : root.compile operationName table = .ok query)
    {bindings : Bindings} :
    query.document.checkBindings table bindings = .ok () ↔ root.BoundBy table bindings := by
  rw [Document.checkBindings_eq_ok]
  constructor
  · rintro ⟨hall, hknown⟩
    constructor
    case bound =>
      intro argument v passes
      obtain ⟨d, hd, named⟩ := exists_declared_of_passes compiled passes
      obtain ⟨j, hj, hfits⟩ := hall d hd
      exact ⟨d.name, d.type, j, named, hj, read_of_reference compiled hd passes named, hfits⟩
    case used =>
      intro name hname
      obtain ⟨d, hd, rfl⟩ := hknown name hname
      obtain ⟨argument, v, passes, named, -⟩ := (mem_definitions_iff compiled).mp hd
      exact ⟨argument, v, passes, named⟩
  · rintro ⟨hbound, hused⟩
    constructor
    · intro d hd
      obtain ⟨argument, v, passes, named, hread⟩ := (mem_definitions_iff compiled).mp hd
      obtain ⟨bare, type, j, named', hj, hread', hfits⟩ := hbound argument v passes
      have hbare : some d.name = some bare := by
        rw [← VariableRef.bareName?_eq_some.mpr named, VariableRef.bareName?_eq_some.mpr named']
      cases hbare
      rw [hread] at hread'
      cases hread'
      exact ⟨j, hj, hfits⟩
    · intro name hname
      obtain ⟨argument, v, passes, named⟩ := hused name hname
      exact exists_definition_of_passes compiled passes (VariableRef.bareName?_eq_some.mpr named)

namespace Request

/-- A request is built exactly from the bindings that bind the specification: each reference to a
value of the type written there, and nothing else. It carries the text of the document, the name of
the operation and the bindings as they are. -/
theorem ofBindings_exact (compiled : root.compile operationName table = .ok query)
    (bindings : Bindings) (request : Request) :
    ofBindings query bindings = .ok request ↔
      root.BoundBy table bindings ∧
        request = ⟨query.document.write .compact, operationName, bindings⟩ := by
  rw [← Group.checkBindings_eq_ok compiled]
  obtain ⟨uses, definitions, -, -, rfl⟩ := Group.exists_of_compile compiled
  unfold ofBindings
  rw [Outcome.bind_eq_ok]
  constructor
  · rintro ⟨_, hchecked, h⟩
    cases h
    exact ⟨hchecked, rfl⟩
  · rintro ⟨hchecked, rfl⟩
    exact ⟨⟨⟩, hchecked, rfl⟩

/-- Both ends of a period; no count is given, and the elements of `to` are as given. -/
def period (ends : List Json) : Bindings :=
  ⟨[("count", .null), ("from", .string "2024-01-01"), ("to", .array ends)],
    by
      change ["count", "from", "to"].Pairwise (· < ·)
      decide⟩

/-- What the orders of a period compile to. -/
def ordersQuery : Query :=
  { document := ⟨none, [⟨"from", .nonNull (.named "Date")⟩, ⟨"count", .named "Int"⟩,
      ⟨"to", .list (.nonNull (.named "Date"))⟩], Node.selections ordersBetween.children⟩
    shape := Node.shape .builtin ordersBetween.children
    table := .builtin }

theorem ofBindings_exact_orders :
    ordersBetween.compile none .builtin = .ok ordersQuery ∧
      ordersBetween.BoundBy .builtin (period [.string "2024-02-01"]) ∧
      ¬ ordersBetween.BoundBy .builtin (period [.null]) ∧
      ofBindings ordersQuery (period [.string "2024-02-01"]) =
        .ok ⟨ordersQuery.document.write .compact, none, period [.string "2024-02-01"]⟩ := by
  have compiled : ordersBetween.compile none .builtin = .ok ordersQuery := by with_unfolding_all rfl
  have built : ofBindings ordersQuery (period [.string "2024-02-01"]) =
      .ok ⟨ordersQuery.document.write .compact, none, period [.string "2024-02-01"]⟩ := by rfl
  have refused : (ofBindings ordersQuery (period [.null])).isOk = false := by rfl
  refine ⟨compiled, ((ofBindings_exact compiled _ _).mp built).1, ?_, built⟩
  intro bound
  rw [(ofBindings_exact compiled _ _).mpr ⟨bound, rfl⟩] at refused
  cases refused

end Request

end WireQuery
