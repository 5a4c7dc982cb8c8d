import WireQuery.Proofs.Result.Decoding
import WireQuery.Request.Bindings

/-!
# Accepted bindings

Bindings are accepted exactly if each declared variable is bound to a value of its type and no other
name is bound.
-/

namespace WireQuery
set_option autoImplicit false

namespace WireType

variable {table : ScalarTable} {j : Json}

theorem misfit?_shapeless {element : WireType} (present : j ≠ .null)
    (shapeless : ∀ items, j ≠ .array items) : (list element).misfit? table j = some j.kind := by
  cases j with
  | null => exact absurd rfl present
  | array items => exact absurd rfl (shapeless items)
  | _ => rfl

theorem misfit?_nonNull {inner : WireType} (present : j ≠ .null) :
    (nonNull inner).misfit? table j = inner.misfit? table j := by
  rw [misfit?, if_neg (Json.not_isNull present)]

theorem misfit?_eq_none {type : WireType} :
    type.misfit? table j = none ↔ type.Fits (table.kindOf type.baseName) j := by
  induction type generalizing j with
  | named name =>
    rw [misfit?, Fits, baseName, ← Json.isNull_iff, ← Bool.or_eq_true]
    split
    · next h => simp [h]
    · next h => simp [h]
  | list element ih =>
    rw [Fits, baseName]
    rcases j.null_or_array with rfl | ⟨items, rfl⟩ | ⟨present, shapeless⟩
    · simp [misfit?]
    · rw [misfit?, List.findSome?_eq_none_iff]
      simp [ih]
    · simp [misfit?_shapeless present shapeless, present, shapeless]
  | nonNull inner ih =>
    rw [Fits, baseName, ← ih]
    by_cases hnull : j = .null
    · simp [hnull, misfit?, Json.isNull]
    · rw [misfit?_nonNull hnull]
      simp [hnull]

end WireType

theorem VariableDefinition.checkBinding_eq_ok {table : ScalarTable} {bindings : Bindings}
    {d : VariableDefinition} :
    d.checkBinding table bindings = .ok () ↔
      ∃ j, bindings.get? d.name = some j ∧ d.type.Fits (table.kindOf d.type.baseName) j := by
  unfold checkBinding
  cases bindings.get? d.name with
  | none => simp
  | some j =>
    simp only [Option.some.injEq, exists_eq_left', ← WireType.misfit?_eq_none]
    cases d.type.misfit? table j <;> simp

namespace Document

variable {document : Document} {table : ScalarTable} {bindings : Bindings}

theorem definition?_isNone {name : String} :
    (document.definition? name).isNone = false ↔ ∃ d ∈ document.definitions, d.name = name := by
  simp [definition?, List.find?_isSome]

theorem checkBindings_eq_ok :
    document.checkBindings table bindings = .ok () ↔
      (∀ d ∈ document.definitions, ∃ j, bindings.get? d.name = some j ∧
        d.type.Fits (table.kindOf d.type.baseName) j) ∧
      ∀ name ∈ Keyed.keys bindings.entries, ∃ d ∈ document.definitions, d.name = name := by
  have hnames : (bindings.entries.find? fun binding => (document.definition? binding.1).isNone) =
      none ↔ ∀ name ∈ Keyed.keys bindings.entries, ∃ d ∈ document.definitions, d.name = name := by
    simp only [List.find?_eq_none, Bool.not_eq_true, definition?_isNone, Keyed.keys,
      List.forall_mem_map]
  rw [← hnames, ← forall₂_congr fun d _ => VariableDefinition.checkBinding_eq_ok,
    ← Outcome.forM_eq_ok]
  unfold checkBindings
  rw [Outcome.bind_eq_ok]
  cases bindings.entries.find? (fun binding => (document.definition? binding.1).isNone) with
  | none =>
    constructor
    · rintro ⟨_, hall, -⟩
      exact ⟨hall, rfl⟩
    · rintro ⟨hall, -⟩
      exact ⟨⟨⟩, hall, rfl⟩
  | some binding => simp

end Document

end WireQuery
