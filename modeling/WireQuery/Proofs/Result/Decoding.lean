import WireQuery.Proofs.Outcome
import WireQuery.Proofs.Result.Fits
import WireQuery.Proofs.Result.Projection
import WireQuery.Result.Decoder

/-!
# Decoders and what they decode

A decoder answers a predicate on values and a relation to results: it succeeds on every value with
the predicate, and whatever it returns comes from such a value by the relation. The decoders of
types, leaves and nested levels each answer the predicates and relations for values that fit.
-/

namespace WireQuery
set_option autoImplicit false

/-- The decoder succeeds exactly where `fits` holds, at every path, and gives what `gives` says. -/
structure Decoder.Answers (decode : Decoder Value) (fits : Json → Prop)
    (gives : Json → Value → Prop) : Prop where
  succeeds : ∀ path j, fits j → ∃ v, decode path j = .ok v
  sound : ∀ path j v, decode path j = .ok v → fits j ∧ gives j v

namespace Decoder

variable {decode : Decoder Value} {fits : Json → Prop} {gives : Json → Value → Prop}

theorem itemsFrom_succeeds {items : List Json}
    (each : ∀ item ∈ items, ∀ path, ∃ v, decode path item = .ok v) (path : ResultPath)
    (start : Nat) : ∃ values, itemsFrom decode path start items = .ok values := by
  induction items generalizing start with
  | nil => exact ⟨[], rfl⟩
  | cons item rest ih =>
    obtain ⟨hitem, hrest⟩ := List.forall_mem_cons.mp each
    obtain ⟨v, hv⟩ := hitem (path ++ [.index start])
    obtain ⟨values, hvalues⟩ := ih hrest (start + 1)
    refine ⟨v :: values, ?_⟩
    rw [itemsFrom, hv, hvalues]
    rfl

theorem itemsFrom_sound {items : List Json}
    (each : ∀ item ∈ items, ∀ path v, decode path item = .ok v → fits item ∧ gives item v)
    {path : ResultPath} {start : Nat} {values : List Value}
    (decoded : itemsFrom decode path start items = .ok values) :
    (∀ item ∈ items, fits item) ∧ List.Forall₂ gives items values := by
  induction items generalizing start values with
  | nil =>
    cases decoded
    exact ⟨fun item hitem => absurd hitem List.not_mem_nil, .nil⟩
  | cons item rest ih =>
    obtain ⟨hitem, hrest⟩ := List.forall_mem_cons.mp each
    obtain ⟨v, hv, decoded⟩ := Outcome.bind_eq_ok.mp decoded
    obtain ⟨others, hothers, heq⟩ := Outcome.bind_eq_ok.mp decoded
    cases heq
    obtain ⟨hfits, hgives⟩ := hitem _ v hv
    obtain ⟨hothersFit, hall⟩ := ih hrest hothers
    exact ⟨List.forall_mem_cons.mpr ⟨hfits, hothersFit⟩, .cons hgives hall⟩

/-- Lists whose items decode alike, one by one, decode alike. -/
theorem itemsFrom_congr {related : Json → Json → Prop} {items items' : List Json}
    (each : List.Forall₂ related items items')
    (h : ∀ item ∈ items, ∀ item', related item item' → ∀ path, decode path item = decode path item')
    (path : ResultPath) (start : Nat) :
    itemsFrom decode path start items = itemsFrom decode path start items' := by
  induction each generalizing start with
  | nil => rfl
  | cons first _ ih =>
    obtain ⟨hfirst, hrest⟩ := List.forall_mem_cons.mp h
    rw [itemsFrom, hfirst _ first, ih hrest, itemsFrom]

theorem itemsFrom_map {f : Json → Json} {items : List Json}
    (h : ∀ item ∈ items, ∀ path, decode path (f item) = decode path item) (path : ResultPath)
    (start : Nat) :
    itemsFrom decode path start (items.map f) = itemsFrom decode path start items := by
  have each : List.Forall₂ (fun a b => ∀ path, decode path a = decode path b) (items.map f) items :=
    List.forall₂_map_left_iff.mpr (List.forall₂_same.mpr h)
  exact itemsFrom_congr each (fun _ _ _ alike => alike) path start

end Decoder

/-- A list of values of a nested level is decoded like any other list. -/
theorem Shape.decodeLevels_eq_itemsFrom {decodeMembers : ResultPath → List (String × Json) →
    Except DecodeError (List (String × Value))} (path : ResultPath) (start : Nat)
    (items : List Json) : decodeLevels decodeMembers path start items =
      Decoder.itemsFrom (decodeLevel decodeMembers) path start items := by
  induction items generalizing start with
  | nil => rw [decodeLevels, Decoder.itemsFrom]
  | cons item rest ih => rw [decodeLevels, ih, Decoder.itemsFrom]

theorem Value.itemsToJson_of_forall₂ {mirrors : Json → Value → Prop} {projection : Json → Json}
    {items : List Json} {values : List Value}
    (h : List.Forall₂ (fun j v => mirrors j v ∧ v.toJson = projection j) items values) :
    List.Forall₂ mirrors items values ∧ itemsToJson values = items.map projection := by
  induction h with
  | nil => exact ⟨.nil, rfl⟩
  | cons first _ ih =>
    refine ⟨.cons first.1 ih.1, ?_⟩
    rw [itemsToJson, List.map_cons, first.2, ih.2]

namespace Json

@[simp] theorem isNull_iff {j : Json} : j.isNull = true ↔ j = .null := by
  cases j <;> simp [isNull]

theorem not_isNull {j : Json} (present : j ≠ .null) : ¬ j.isNull = true :=
  fun h => present (isNull_iff.mp h)

theorem null_or_array (j : Json) :
    j = .null ∨ (∃ items, j = .array items) ∨ (j ≠ .null ∧ ∀ items, j ≠ .array items) := by
  cases j <;> simp

end Json

theorem Json.Integer.eq_ofInt64 {n : Integer} {word : Int64} (h : n.toInt64? = some word) :
    n = ofInt64 word := by
  unfold toInt64? at h
  split at h
  · next below =>
    cases h
    have hvalue : (Int64.ofInt n.value).toInt = n.value := by
      have least := n.least
      exact Int64.toInt_ofInt_of_le (by simpa using least) (by simpa using below)
    cases n
    simp only [ofInt64, hvalue]
  · cases h

namespace ScalarKind

@[simp] theorem decode?_isSome (kind : ScalarKind) (j : Json) :
    (kind.decode? j).isSome = kind.accepts j := by
  cases kind with
  | text => cases j <;> rfl
  | integer =>
    cases j with
    | number n => cases n <;> simp [decode?, accepts]
    | _ => rfl
  | number => cases j <;> rfl
  | boolean => cases j <;> rfl
  | unknown => cases j <;> rfl

@[simp] theorem decode?_eq_none (kind : ScalarKind) {j : Json} :
    kind.decode? j = none ↔ kind.accepts j = false := by
  rw [← kind.decode?_isSome, Option.isSome_eq_false_iff, Option.isNone_iff_eq_none]

theorem decode?_gives {kind : ScalarKind} {j : Json} {v : Value} (present : j ≠ .null)
    (h : kind.decode? j = some v) (name : String) :
    Value.MirrorsScalar j v ∧ v.toJson = (WireType.named name).projection kind j := by
  unfold decode? at h
  split at h
  case h_1 s =>
    cases h
    exact ⟨.text s, rfl⟩
  case h_2 n =>
    obtain ⟨word, hword, rfl⟩ := Option.map_eq_some_iff.mp h
    rw [Json.Integer.eq_ofInt64 hword]
    exact ⟨.integer word, rfl⟩
  case h_3 n =>
    cases h
    rw [n.toBinary64_eq]
    exact ⟨.number n, rfl⟩
  case h_4 b =>
    cases h
    exact ⟨.bool b, rfl⟩
  case h_5 =>
    cases h
    exact ⟨.raw present, by cases j <;> rfl⟩
  case h_6 => cases h

end ScalarKind

namespace WireType

variable {kind : ScalarKind} {path : ResultPath} {j : Json}

@[simp] theorem decode_null (t : WireType) : t.decode kind path .null =
    if t.isNonNull then .error (.unexpectedNull path) else .ok .null := by
  cases t <;> rfl

theorem decode_named {name : String} {value : Value} (present : j ≠ .null)
    (h : kind.decode? j = some value) : (named name).decode kind path j = .ok value := by
  rw [decode, if_neg (Json.not_isNull present), h]

theorem decode_refused {name : String} (present : j ≠ .null) (refused : kind.accepts j = false) :
    (named name).decode kind path j = .error (.scalarMismatch path (named name) j.kind) := by
  rw [decode, if_neg (Json.not_isNull present), kind.decode?_eq_none.mpr refused]

theorem decode_shapeless {element : WireType} (present : j ≠ .null)
    (shapeless : ∀ items, j ≠ .array items) :
    (list element).decode kind path j = .error (.scalarMismatch path (list element) j.kind) := by
  cases j with
  | null => exact absurd rfl present
  | array items => exact absurd rfl (shapeless items)
  | _ => rfl

theorem decode_nonNull {inner : WireType} (present : j ≠ .null) :
    (nonNull inner).decode kind path j = inner.decode kind path j := by
  rw [decode, if_neg (Json.not_isNull present)]

/-- The decoder of the type takes the values that fit, and what it gives mirrors them and is
written as they are projected. -/
def Answered (kind : ScalarKind) (t : WireType) : Prop :=
  (t.decode kind).Answers (t.Fits kind)
    fun j v => Value.MirrorsScalar j v ∧ v.toJson = t.projection kind j

theorem answered_named (kind : ScalarKind) (name : String) : (named name).Answered kind where
  succeeds := by
    rintro path j (rfl | haccepts)
    · exact ⟨.null, decode_null _⟩
    · by_cases hnull : j = .null
      · exact ⟨.null, hnull ▸ decode_null _⟩
      · rw [← kind.decode?_isSome] at haccepts
        obtain ⟨v, hv⟩ := Option.isSome_iff_exists.mp haccepts
        exact ⟨v, decode_named hnull hv⟩
  sound := by
    intro path j v decoded
    by_cases hnull : j = .null
    · subst hnull
      cases decoded
      exact ⟨Or.inl rfl, .null, rfl⟩
    · cases hvalue : kind.decode? j with
      | some value =>
        cases (decode_named hnull hvalue).symm.trans decoded
        refine ⟨Or.inr ?_, ScalarKind.decode?_gives hnull hvalue name⟩
        rw [← kind.decode?_isSome, hvalue]
        rfl
      | none =>
        have refused := kind.decode?_eq_none.mp hvalue
        cases (decode_refused hnull refused).symm.trans decoded

theorem answered_list {element : WireType} (inner : element.Answered kind) :
    (list element).Answered kind where
  succeeds := by
    rintro path j (rfl | ⟨items, rfl, hitems⟩)
    · exact ⟨.null, decode_null _⟩
    · obtain ⟨values, hvalues⟩ := Decoder.itemsFrom_succeeds
        (fun item hitem path => inner.succeeds path item (hitems item hitem)) path 0
      exact ⟨.list values, by rw [decode, hvalues]; rfl⟩
  sound := by
    intro path j v decoded
    rcases j.null_or_array with rfl | ⟨items, rfl⟩ | ⟨present, shapeless⟩
    · cases decoded
      exact ⟨Or.inl rfl, .null, rfl⟩
    · rw [decode] at decoded
      obtain ⟨values, hvalues, rfl⟩ := Outcome.map_eq_ok.mp decoded
      obtain ⟨hitems, hgives⟩ := Decoder.itemsFrom_sound
        (fun item _ path v => inner.sound path item v) hvalues
      obtain ⟨hmirror, hjson⟩ := Value.itemsToJson_of_forall₂ hgives
      refine ⟨Or.inr ⟨items, rfl, hitems⟩, .list hmirror, ?_⟩
      rw [Value.toJson, hjson, projection]
    · cases (decode_shapeless present shapeless).symm.trans decoded

theorem answered_nonNull {inner : WireType} (h : inner.Answered kind) :
    (nonNull inner).Answered kind where
  succeeds := by
    rintro path j ⟨present, hfits⟩
    rw [decode_nonNull present]
    exact h.succeeds path j hfits
  sound := by
    intro path j v decoded
    by_cases hnull : j = .null
    · subst hnull
      cases decoded
    · rw [decode_nonNull hnull] at decoded
      obtain ⟨hfits, hgives⟩ := h.sound path j v decoded
      exact ⟨⟨hnull, hfits⟩, hgives⟩

theorem decode_answers (kind : ScalarKind) : ∀ t : WireType, t.Answered kind
  | named name => answered_named kind name
  | list element => answered_list (decode_answers kind element)
  | nonNull inner => answered_nonNull (decode_answers kind inner)

end WireType

namespace Leaf

theorem decode_answers : ∀ leaf : Leaf, Decoder.Answers leaf.decode leaf.Fits
    fun j v => Value.MirrorsScalar j v ∧ v.toJson = leaf.projection j
  | typed type kind => type.decode_answers kind
  | untyped descriptor =>
    { succeeds := fun _ j _ => ⟨_, rfl⟩
      sound := by
        intro path j v decoded
        cases decoded
        refine ⟨trivial, ?_⟩
        by_cases hnull : j.isNull = true
        · rw [if_pos hnull, Json.isNull_iff.mp hnull]
          exact ⟨.null, rfl⟩
        · rw [if_neg hnull]
          exact ⟨.raw fun h => hnull (Json.isNull_iff.mpr h), rfl⟩ }

end Leaf

end WireQuery
