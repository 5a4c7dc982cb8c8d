import WireQuery.Proofs.Request.Accepted

/-!
# The first part that a type refuses

A type that refuses a value does so at one part: the value itself, or a part of the first of its
items that does not fit. The check of bindings reports the kind of this part, and the decoder of
scalars fails at it.
-/

namespace WireQuery
set_option autoImplicit false

namespace Json

/-- The part that indexes lead to through nested arrays. -/
def part? : Json → List Nat → Option Json
  | j, [] => some j
  | .array items, i :: place => items[i]?.bind (part? · place)
  | _, _ :: _ => none

@[simp] theorem kind_eq_null {j : Json} : j.kind = .null ↔ j = .null := by
  cases j with
  | number n =>
    cases n with
    | integer n => simp [kind, apply_ite (· = Kind.null)]
    | float x => simp [kind]
  | _ => simp [kind]

end Json

namespace WireType

/-- The first part of a value that a type refuses, with the indexes that lead to it and the type
there. Null is refused by the non-null type that it meets. -/
inductive FirstRefused (kind : ScalarKind) :
    WireType → Json → List Nat → WireType → Json → Prop where
  | scalar {name : String} {j : Json} (present : j ≠ .null) (refused : kind.accepts j = false) :
      FirstRefused kind (named name) j [] (named name) j
  | shapeless {element : WireType} {j : Json} (present : j ≠ .null)
      (shapeless : ∀ items, j ≠ .array items) :
      FirstRefused kind (list element) j [] (list element) j
  | item {element type : WireType} {before rest : List Json} {j part : Json} {place : List Nat}
      (fit : ∀ earlier ∈ before, element.Fits kind earlier)
      (within : FirstRefused kind element j place type part) :
      FirstRefused kind (list element) (.array (before ++ j :: rest)) (before.length :: place)
        type part
  | null (inner : WireType) : FirstRefused kind (nonNull inner) .null [] (nonNull inner) .null
  | inside {inner type : WireType} {j part : Json} {place : List Nat} (present : j ≠ .null)
      (within : FirstRefused kind inner j place type part) :
      FirstRefused kind (nonNull inner) j place type part

variable {kind : ScalarKind} {t type : WireType} {j part : Json} {place : List Nat}

theorem FirstRefused.part? (h : t.FirstRefused kind j place type part) :
    j.part? place = some part := by
  induction h with
  | scalar _ _ => rfl
  | shapeless _ _ => rfl
  | @item element type before rest j part place _ _ ih =>
    rw [Json.part?, List.getElem?_append_right (Nat.le_refl _), Nat.sub_self,
      List.getElem?_cons_zero]
    exact ih
  | null _ => rfl
  | inside _ _ ih => exact ih

variable {table : ScalarTable}

theorem FirstRefused.misfit? (h : t.FirstRefused kind j place type part)
    (hkind : kind = table.kindOf t.baseName) : t.misfit? table j = some part.kind := by
  induction h with
  | @scalar name j present refused =>
    have hnull := Bool.eq_false_iff.mpr (Json.not_isNull present)
    rw [baseName] at hkind
    rw [WireType.misfit?, hnull, ← hkind, refused]
    rfl
  | shapeless present shapeless => exact misfit?_shapeless present shapeless
  | @item element type before rest j part place fit _ ih =>
    have hbefore : ∀ earlier ∈ before, element.misfit? table earlier = none := by
      intro earlier hmem
      apply misfit?_eq_none.mpr
      exact hkind ▸ fit earlier hmem
    rw [WireType.misfit?]
    exact List.findSome?_eq_some_iff.mpr ⟨before, j, rest, rfl, ih hkind, hbefore⟩
  | null inner => rfl
  | @inside inner type j part place present _ ih =>
    rw [misfit?_nonNull present]
    exact ih hkind

/-- The check of a value reports the kind of the first part that its type refuses. -/
theorem misfit?_eq_some {found : Json.Kind} :
    t.misfit? table j = some found ↔ ∃ place type part,
      t.FirstRefused (table.kindOf t.baseName) j place type part ∧ part.kind = found := by
  constructor
  · intro h
    induction t generalizing j with
    | named name =>
      rw [misfit?] at h
      split at h
      · cases h
      · next hrefused =>
        cases h
        simp only [Bool.or_eq_true, not_or, Bool.not_eq_true] at hrefused
        have present : j ≠ .null := by
          rintro rfl
          cases hrefused.1
        exact ⟨[], named name, j, .scalar present hrefused.2, rfl⟩
    | list element ih =>
      rcases j.null_or_array with rfl | ⟨items, rfl⟩ | ⟨present, shapeless⟩
      · cases h
      · rw [misfit?] at h
        obtain ⟨before, item, rest, rfl, hitem, hbefore⟩ := List.findSome?_eq_some_iff.mp h
        obtain ⟨place, type, part, hpart, hkind⟩ := ih hitem
        have fit : ∀ earlier ∈ before, element.Fits (table.kindOf element.baseName) earlier :=
          fun earlier hmem => misfit?_eq_none.mp (hbefore earlier hmem)
        exact ⟨before.length :: place, type, part, .item fit hpart, hkind⟩
      · cases (misfit?_shapeless present shapeless).symm.trans h
        exact ⟨[], list element, j, .shapeless present shapeless, rfl⟩
    | nonNull inner ih =>
      by_cases hnull : j = .null
      · subst hnull
        cases h
        exact ⟨[], nonNull inner, .null, .null inner, rfl⟩
      · rw [misfit?_nonNull hnull] at h
        obtain ⟨place, type, part, hpart, hkind⟩ := ih h
        exact ⟨place, type, part, .inside hnull hpart, hkind⟩
  · rintro ⟨place, type, part, hpart, rfl⟩
    exact hpart.misfit? rfl

end WireType

theorem Decoder.itemsFrom_eq_error {decode : Decoder Value} {path : ResultPath} {item : Json}
    {e : DecodeError} {before : List Json} (rest : List Json) (start : Nat)
    (hbefore : ∀ earlier ∈ before, ∀ path, ∃ v, decode path earlier = .ok v)
    (hitem : decode (path ++ [.index (start + before.length)]) item = .error e) :
    itemsFrom decode path start (before ++ item :: rest) = .error e := by
  induction before generalizing start with
  | nil =>
    rw [List.nil_append, itemsFrom]
    rw [List.length_nil, Nat.add_zero] at hitem
    rw [hitem]
    rfl
  | cons earlier others ih =>
    obtain ⟨hearlier, hothers⟩ := List.forall_mem_cons.mp hbefore
    obtain ⟨v, hv⟩ := hearlier (path ++ [.index start])
    have hrest : itemsFrom decode path (start + 1) (others ++ item :: rest) = .error e := by
      apply ih (start + 1) hothers
      rw [Nat.add_assoc, Nat.add_comm 1]
      exact hitem
    rw [List.cons_append, itemsFrom, hv, hrest]
    rfl

namespace WireType

/-- How a decoder reports a part of a value that its type there refuses. -/
def refusal (path : ResultPath) (type : WireType) (part : Json) : DecodeError :=
  if part.isNull then .unexpectedNull path else .scalarMismatch path type part.kind

variable {kind : ScalarKind} {t type : WireType} {j part : Json} {place : List Nat}

theorem refusal_of_present (path : ResultPath) (type : WireType) (present : part ≠ .null) :
    refusal path type part = .scalarMismatch path type part.kind :=
  if_neg (Json.not_isNull present)

/-- The decoder fails at the first part that the type refuses. -/
theorem FirstRefused.decode (h : t.FirstRefused kind j place type part) (path : ResultPath) :
    t.decode kind path j = .error (refusal (path ++ place.map .index) type part) := by
  induction h generalizing path with
  | @scalar name j present refused =>
    rw [refusal_of_present _ _ present, List.map_nil, List.append_nil]
    exact decode_refused present refused
  | @shapeless element j present shapeless =>
    rw [refusal_of_present _ _ present, List.map_nil, List.append_nil]
    exact decode_shapeless present shapeless
  | @item element type before rest j part place fit _ ih =>
    have answers := element.decode_answers kind
    have hbefore : ∀ earlier ∈ before, ∀ path, ∃ v, element.decode kind path earlier = .ok v :=
      fun earlier hmem path => answers.succeeds path earlier (fit earlier hmem)
    have hitem := ih (path ++ [.index before.length])
    rw [← Nat.zero_add before.length] at hitem
    rw [WireType.decode, Decoder.itemsFrom_eq_error rest 0 hbefore hitem, Nat.zero_add,
      List.append_assoc]
    rfl
  | null inner =>
    rw [List.map_nil, List.append_nil]
    rfl
  | @inside inner type j part place present _ ih =>
    rw [decode_nonNull present]
    exact ih path

/-- The check of a value and the decoder of its type agree on every value: both take it, or both
refuse it for the same part. The check reports the kind of that part. The decoder fails with its
path: with an unexpected null if the part is null, otherwise with a mismatch that reports the same
kind. -/
theorem misfit?_agrees_decode (table : ScalarTable) (t : WireType) (path : ResultPath)
    (j : Json) :
    (t.misfit? table j = none ↔ ∃ v, t.decode (table.kindOf t.baseName) path j = .ok v) ∧
    ∀ found e, t.misfit? table j = some found →
      t.decode (table.kindOf t.baseName) path j = .error e →
        ∃ place type part, t.FirstRefused (table.kindOf t.baseName) j place type part ∧
          j.part? place = some part ∧ part.kind = found ∧
          (found = .null ↔ e = .unexpectedNull (path ++ place.map .index)) ∧
          (found ≠ .null → e = .scalarMismatch (path ++ place.map .index) type found) := by
  have answers := t.decode_answers (table.kindOf t.baseName)
  constructor
  · rw [misfit?_eq_none]
    constructor
    · exact answers.succeeds path j
    · rintro ⟨v, decoded⟩
      exact (answers.sound path j v decoded).1
  · intro found e checked decoded
    obtain ⟨place, type, part, hpart, rfl⟩ := misfit?_eq_some.mp checked
    rw [hpart.decode path] at decoded
    cases decoded
    refine ⟨place, type, part, hpart, hpart.part?, rfl, ?_, ?_⟩
    · rw [Json.kind_eq_null]
      constructor
      · rintro rfl
        rfl
      · intro h
        by_contra present
        rw [refusal_of_present _ _ present] at h
        cases h
    · intro hkind
      exact refusal_of_present _ _ fun h => hkind (Json.kind_eq_null.mpr h)

def countsByDay : WireType := .nonNull (.list (.list (.nonNull (.named "Int"))))

/-- No counts, one count, and one count before another that no signed word holds. -/
def overflowingCounts : Json :=
  .array [.null, .array [.number (.integer (.ofInt64 3))],
    .array [.number (.integer (.ofInt64 4)),
      .number (.integer ⟨0x8000000000000000, by decide, by decide⟩)]]

theorem misfit?_agrees_decode_counts :
    countsByDay.misfit? .builtin overflowingCounts = some .outOfRangeInteger ∧
      ∃ e part, countsByDay.decode .integer [] overflowingCounts = .error e ∧
        overflowingCounts.part? [2, 1] = some part ∧ part.kind = .outOfRangeInteger ∧
        e = .scalarMismatch [.index 2, .index 1] (.named "Int") .outOfRangeInteger := by
  have checked : countsByDay.misfit? .builtin overflowingCounts = some .outOfRangeInteger := by rfl
  have decoded : countsByDay.decode .integer [] overflowingCounts =
      .error (.scalarMismatch [.index 2, .index 1] (.named "Int") .outOfRangeInteger) := by rfl
  obtain ⟨-, hrefused⟩ := misfit?_agrees_decode .builtin countsByDay [] overflowingCounts
  obtain ⟨place, type, part, -, hpart, hkind, -, hmismatch⟩ := hrefused _ _ checked decoded
  have hplace : place = [2, 1] := by
    have herror := hmismatch (by decide)
    simp only [List.nil_append, DecodeError.scalarMismatch.injEq] at herror
    have hsteps : place.map PathStep.index = [2, 1].map PathStep.index := herror.1.symm
    exact (List.map_injective_iff.mpr fun _ _ h => PathStep.index.inj h) hsteps
  rw [hplace] at hpart
  exact ⟨checked, _, part, decoded, hpart, hkind, rfl⟩

end WireType

end WireQuery
