import WireQuery.Proofs.Outcome
import WireQuery.Proofs.Result.Decoding
import WireQuery.Proofs.Result.Defect
import WireQuery.Proofs.Result.Proper
import WireQuery.Proofs.Spec.Grammar

/-!
# Decoders report first defects

A decoder succeeds where there is no defect, and otherwise its error is that of the first one. A
loop over parts of a value keeps this, since the defects of a part are before those of any later
part, and so the decoders of types, of levels and of slots keep it one after the other.
-/

namespace WireQuery
set_option autoImplicit false

/-- An outcome against the defects that there are. -/
inductive Reports {α : Type} (defects : Place → DecodeError → Prop) :
    Except DecodeError α → Prop where
  | ok {v : α} (clean : ∀ place e, ¬ defects place e) : Reports defects (.ok v)
  | error {place : Place} {e : DecodeError} (first : First defects place e) :
      Reports defects (.error e)

/-- The defects of the elements of a list, each at a place below the number of its element. -/
inductive Among {α : Type} (xs : List α) (defects : Nat → α → Place → DecodeError → Prop) :
    Place → DecodeError → Prop where
  | mk {i : Nat} {x : α} {place : Place} {e : DecodeError} (element : xs[i]? = some x)
      (defect : defects i x place e) : Among xs defects (i :: place) e

namespace Among

variable {α : Type} {x : α} {rest : List α} {defects : Nat → α → Place → DecodeError → Prop}
  {i : Nat} {place : Place} {e : DecodeError}

@[simp] theorem cons_zero : Among (x :: rest) defects (0 :: place) e ↔ defects 0 x place e := by
  constructor
  · rintro ⟨element, defect⟩
    cases element
    exact defect
  · exact .mk List.getElem?_cons_zero

@[simp] theorem cons_succ : Among (x :: rest) defects ((i + 1) :: place) e ↔
    Among rest (fun i => defects (i + 1)) (i :: place) e := by
  constructor
  · rintro ⟨element, defect⟩
    exact .mk element defect
  · rintro ⟨element, defect⟩
    exact .mk element defect

theorem first_cons_zero (first : First (defects 0 x) place e) :
    First (Among (x :: rest) defects) (0 :: place) e := by
  refine ⟨cons_zero.mpr first.1, ?_⟩
  rintro (_ | ⟨_ | i, place'⟩) e' h hlt
  · cases h
  · exact first.2 place' e' (cons_zero.mp h) (List.cons_lt_cons_self.mp hlt)
  · exact absurd hlt (by simp [List.cons_lt_cons_iff])

theorem first_cons_succ (clean : ∀ place e, ¬ defects 0 x place e)
    (first : First (Among rest fun i => defects (i + 1)) (i :: place) e) :
    First (Among (x :: rest) defects) ((i + 1) :: place) e := by
  refine ⟨cons_succ.mpr first.1, ?_⟩
  rintro (_ | ⟨_ | i', place'⟩) e' h hlt
  · cases h
  · exact clean place' e' (cons_zero.mp h)
  · apply first.2 (i' :: place') e' (cons_succ.mp h)
    rw [List.cons_lt_cons_iff] at hlt ⊢
    exact hlt.imp Nat.lt_of_succ_lt_succ fun ⟨heq, hlt⟩ => ⟨Nat.succ.inj heq, hlt⟩

end Among

namespace Reports

variable {α β γ : Type} {defects defects' : Place → DecodeError → Prop}

theorem congr (h : ∀ place e, defects place e ↔ defects' place e) {outcome : Except DecodeError α}
    (reports : Reports defects outcome) : Reports defects' outcome := by
  have heq : defects = defects' := by
    funext place e
    exact propext (h place e)
  rwa [← heq]

theorem map (f : α → β) {outcome : Except DecodeError α} (h : Reports defects outcome) :
    Reports defects (f <$> outcome) := by
  cases h with
  | ok clean => exact .ok clean
  | error first => exact .error first

/-- An error without a place inside is first if it is a defect and nothing else is one. -/
theorem whole {e : DecodeError} (h : ∀ place e', defects place e' ↔ place = [] ∧ e' = e) :
    @Reports α defects (.error e) :=
  .error ⟨(h [] e).mpr ⟨rfl, rfl⟩, fun _ _ _ => List.not_lt_nil _⟩

/-- If no place has two errors, the outcome is an error exactly if it is the first one. -/
theorem eq_error_iff {outcome : Except DecodeError α} (h : Reports defects outcome)
    (unique : ∀ place e e', defects place e → defects place e' → e = e') {e : DecodeError} :
    outcome = .error e ↔ ∃ place, First defects place e := by
  cases h with
  | ok clean =>
    constructor
    · intro heq
      cases heq
    · rintro ⟨place, hdefect, -⟩
      exact absurd hdefect (clean place e)
  | @error place' e' first' =>
    constructor
    · intro heq
      cases heq
      exact ⟨place', first'⟩
    · rintro ⟨place, first⟩
      have hplace : place = place' :=
        List.le_antisymm (first.2 place' e' first'.1) (first'.2 place e first.1)
      rw [hplace] at first
      rw [unique place' e e' first.1 first'.1]

variable {among : Nat → α → Place → DecodeError → Prop} {x : α} {rest : List α}

theorem nil {v : β} : Reports (Among [] among) (.ok v) := by
  constructor
  rintro place e ⟨element, -⟩
  cases element

/-- The first defect of a list is that of its head, or else that of its tail one number later. -/
theorem cons {head : Except DecodeError β} {tail : Except DecodeError γ} {ε : Type}
    (f : β → γ → ε) (hhead : Reports (among 0 x) head)
    (htail : Reports (Among rest fun i => among (i + 1)) tail) :
    Reports (Among (x :: rest) among) (do
      let v ← head
      return f v (← tail)) := by
  cases hhead with
  | error first => exact .error (Among.first_cons_zero first)
  | ok clean =>
    cases htail with
    | ok restClean =>
      refine .ok ?_
      rintro (_ | ⟨_ | i, place⟩) e h
      · cases h
      · exact clean place e (Among.cons_zero.mp h)
      · exact restClean (i :: place) e (Among.cons_succ.mp h)
    | @error place e first =>
      cases place with
      | nil => cases first.1
      | cons i place => exact .error (Among.first_cons_succ clean first)

end Reports

namespace DefectAt

variable {path : ResultPath} {kind : ScalarKind}

@[simp] theorem scalar_null {type : WireType} {place : Place} {e : DecodeError} :
    DefectAt path ⟨.scalar type kind, .null⟩ place e ↔
      type.isNonNull = true ∧ place = [] ∧ e = .unexpectedNull path := by
  constructor
  · intro h
    cases h with
    | null => exact ⟨rfl, rfl, rfl⟩
    | mismatch present refused => exact absurd rfl present
    | inside leads within => cases leads
  · rintro ⟨hrequired, rfl, rfl⟩
    cases type with
    | nonNull inner => exact .null
    | named name => cases hrequired
    | list element => cases hrequired

/-- A defect of a value that is not null lies in the form of the value or in an item. -/
theorem scalar_present {type : WireType} {j : Json} (present : j ≠ .null) {place : Place}
    {e : DecodeError} :
    DefectAt path ⟨.scalar type kind, j⟩ place e ↔
      (¬ type.Admits kind j ∧ place = [] ∧ e = .scalarMismatch path type.nullable j.kind) ∨
      ∃ element items, type.element? = some element ∧ j = .array items ∧
        Among items (fun i item => DefectAt (path ++ [.index i]) ⟨.scalar element kind, item⟩)
          place e := by
  constructor
  · intro h
    cases h with
    | null => exact absurd rfl present
    | mismatch _ refused => exact Or.inl ⟨refused, rfl, rfl⟩
    | inside leads within =>
      cases leads with
      | element lists here => exact Or.inr ⟨_, _, lists, rfl, .mk here within⟩
  · rintro (⟨refused, rfl, rfl⟩ | ⟨element, items, lists, rfl, ⟨here, within⟩⟩)
    · exact .mismatch present refused
    · exact .inside (.element lists here) within

theorem scalar_named {name : String} {j : Json} (present : j ≠ .null) {place : Place}
    {e : DecodeError} :
    DefectAt path ⟨.scalar (.named name) kind, j⟩ place e ↔ kind.accepts j = false ∧
      place = [] ∧ e = .scalarMismatch path (.named name) j.kind := by
  rw [scalar_present present]
  simp [WireType.Admits, WireType.element?, WireType.nullable]

theorem scalar_shapeless {element : WireType} {j : Json} (present : j ≠ .null)
    (shapeless : ∀ items, j ≠ .array items) {place : Place} {e : DecodeError} :
    DefectAt path ⟨.scalar (.list element) kind, j⟩ place e ↔
      place = [] ∧ e = .scalarMismatch path (.list element) j.kind := by
  rw [scalar_present present]
  simp [WireType.Admits, shapeless, WireType.nullable]

@[simp] theorem scalar_array {element : WireType} {items : List Json} {place : Place}
    {e : DecodeError} :
    DefectAt path ⟨.scalar (.list element) kind, .array items⟩ place e ↔
      Among items (fun i item => DefectAt (path ++ [.index i]) ⟨.scalar element kind, item⟩)
        place e := by
  rw [scalar_present (by simp)]
  simp [WireType.Admits, WireType.element?]

/-- Behind the test for null, a non-null type is as good as the type inside. -/
theorem scalar_nonNull {inner : WireType} (hinner : inner.isNonNull = false) {j : Json}
    (present : j ≠ .null) (place : Place) (e : DecodeError) :
    DefectAt path ⟨.scalar inner kind, j⟩ place e ↔
      DefectAt path ⟨.scalar (.nonNull inner) kind, j⟩ place e := by
  have hnullable : inner.nullable = inner := by
    cases inner with
    | nonNull inner => cases hinner
    | named name => rfl
    | list element => rfl
  rw [scalar_present present, scalar_present present, hnullable]
  rfl

end DefectAt

theorem Decoder.reports_itemsFrom {decode : Decoder Value}
    {defects : ResultPath → Json → Place → DecodeError → Prop} {items : List Json}
    (each : ∀ item ∈ items, ∀ path, Reports (defects path item) (decode path item))
    (path : ResultPath) (start : Nat) :
    Reports (Among items fun i => defects (path ++ [.index (start + i)]))
      (Decoder.itemsFrom decode path start items) := by
  induction items generalizing start with
  | nil => exact .nil
  | cons item rest ih =>
    obtain ⟨hitem, hrest⟩ := List.forall_mem_cons.mp each
    have htail := ih hrest (start + 1)
    simp only [Nat.add_right_comm start 1] at htail
    exact .cons List.cons (hitem _) htail

namespace WireType

variable {kind : ScalarKind} {path : ResultPath} {j : Json}

theorem reports_null (type : WireType) :
    Reports (DefectAt path ⟨.scalar type kind, .null⟩) (type.decode kind path .null) := by
  rw [decode_null]
  split
  · next required =>
    refine .whole fun place e => ?_
    rw [DefectAt.scalar_null, and_iff_right required]
  · next nullable => exact .ok fun place e h => nullable (DefectAt.scalar_null.mp h).1

theorem reports_named (name : String) (present : j ≠ .null) :
    Reports (DefectAt path ⟨.scalar (named name) kind, j⟩) ((named name).decode kind path j) := by
  cases hvalue : kind.decode? j with
  | some value =>
    rw [decode_named present hvalue]
    refine .ok fun place e h => ?_
    rw [kind.decode?_eq_none.mpr (DefectAt.scalar_named present |>.mp h).1] at hvalue
    cases hvalue
  | none =>
    have refused := kind.decode?_eq_none.mp hvalue
    rw [decode_refused present refused]
    refine .whole fun place e => ?_
    rw [DefectAt.scalar_named present, and_iff_right refused]

theorem reports_array {element : WireType} {items : List Json} (each : ∀ path j,
      Reports (DefectAt path ⟨.scalar element kind, j⟩) (element.decode kind path j)) :
    Reports (DefectAt path ⟨.scalar (list element) kind, .array items⟩)
      ((list element).decode kind path (.array items)) := by
  have hitems := Decoder.reports_itemsFrom
    (fun item (_ : item ∈ items) path => each path item) path 0
  simp only [Nat.zero_add] at hitems
  rw [decode]
  exact (hitems.map Value.list).congr fun _ _ => DefectAt.scalar_array.symm

theorem reports_decode (kind : ScalarKind) {type : WireType} (canonical : type.Canonical)
    (path : ResultPath) (j : Json) :
    Reports (DefectAt path ⟨.scalar type kind, j⟩) (type.decode kind path j) := by
  induction type generalizing path j with
  | named name =>
    by_cases hnull : j = .null
    · exact hnull ▸ reports_null _
    · exact reports_named name hnull
  | list element ih =>
    rcases j.null_or_array with rfl | ⟨items, rfl⟩ | ⟨present, shapeless⟩
    · exact reports_null _
    · exact reports_array (ih canonical)
    · rw [decode_shapeless present shapeless]
      exact .whole fun place e => DefectAt.scalar_shapeless present shapeless
  | nonNull inner ih =>
    obtain ⟨hinner, hcanonical⟩ := canonical
    by_cases hnull : j = .null
    · exact hnull ▸ reports_null _
    · rw [decode_nonNull hnull]
      exact (ih hcanonical path j).congr (DefectAt.scalar_nonNull hinner hnull)

end WireType

def SlotDefect (path : ResultPath) (members : List (String × Json)) (slot : Slot Content)
    (place : Place) (e : DecodeError) : Prop :=
  (members.lookup slot.responseKey = none ∧ place = [] ∧
      e = .missingField (path ++ [.key slot.key])) ∨
    ∃ j, members.lookup slot.responseKey = some j ∧
      DefectAt (path ++ [.key slot.key]) ⟨slot.content.expected, j⟩ place e

namespace DefectAt

variable {path : ResultPath} {slots : Shape} {place : Place} {e : DecodeError}

@[simp] theorem level_object {members : List (String × Json)} :
    DefectAt path ⟨.level slots, .object members⟩ place e ↔
      Among slots (fun _ => SlotDefect path members) place e := by
  constructor
  · intro h
    cases h with
    | missing asked absent => exact .mk asked (Or.inl ⟨absent, rfl, rfl⟩)
    | malformed plain => cases plain
    | inside leads within =>
      cases leads with
      | member asked found => exact .mk asked (Or.inr ⟨_, found, within⟩)
  · rintro ⟨asked, (⟨absent, rfl, rfl⟩ | ⟨j, found, within⟩)⟩
    · exact .missing asked absent
    · exact .inside (.member asked found) within

@[simp] theorem level_array {items : List Json} :
    DefectAt path ⟨.level slots, .array items⟩ place e ↔
      Among items (fun i item => DefectAt (path ++ [.index i]) ⟨.level slots, item⟩) place e := by
  constructor
  · intro h
    cases h with
    | malformed plain => cases plain
    | inside leads within =>
      cases leads with
      | item here => exact .mk here within
  · rintro ⟨here, within⟩
    exact .inside (.item here) within

@[simp] theorem not_level_null : ¬ DefectAt path ⟨.level slots, .null⟩ place e := by
  intro h
  cases h with
  | malformed plain => cases plain
  | inside leads within => cases leads

theorem level_plain {j : Json} (plain : j.isPlain = true) :
    DefectAt path ⟨.level slots, j⟩ place e ↔ place = [] ∧ e = .malformedResponse path j.kind := by
  constructor
  · intro h
    cases h with
    | missing asked absent => cases plain
    | malformed _ => exact ⟨rfl, rfl⟩
    | inside leads within => cases leads <;> cases plain
  · rintro ⟨rfl, rfl⟩
    exact .malformed plain

@[simp] theorem not_anything {j : Json} : ¬ DefectAt path ⟨.anything, j⟩ place e := by
  intro h
  cases h with
  | inside leads within => cases leads

end DefectAt

namespace Shape

variable {decodeMembers : ResultPath → List (String × Json) →
    Except DecodeError (List (String × Value))} {slots : Shape}

theorem reports_decodeLevel (objects : ∀ path members,
      Reports (DefectAt path ⟨.level slots, .object members⟩) (decodeMembers path members))
    (j : Json) (path : ResultPath) :
    Reports (DefectAt path ⟨.level slots, j⟩) (decodeLevel decodeMembers path j) := by
  induction j using Json.induction generalizing path with
  | object members _ =>
    rw [decodeLevel]
    exact (objects path members).map Value.object
  | array items ih =>
    have hitems := Decoder.reports_itemsFrom ih path 0
    simp only [Nat.zero_add] at hitems
    rw [decodeLevel, decodeLevels_eq_itemsFrom]
    apply Reports.map
    exact hitems.congr fun _ _ => DefectAt.level_array.symm
  | null =>
    rw [decodeLevel]
    exact .ok fun _ _ => DefectAt.not_level_null
  | bool b => exact .whole fun _ _ => DefectAt.level_plain rfl
  | number n => exact .whole fun _ _ => DefectAt.level_plain rfl
  | string s => exact .whole fun _ _ => DefectAt.level_plain rfl

variable {table : ScalarTable}

mutual

theorem reports_decodeContent : ∀ content : Content, content.Proper table → ∀ path j,
    Reports (DefectAt path ⟨content.expected, j⟩) (decodeContent content path j)
  | .leaf (.typed type kind), ⟨expressible, _⟩, path, j =>
    type.reports_decode kind expressible.canonical path j
  | .leaf (.untyped descriptor), _, path, j => .ok fun _ _ => DefectAt.not_anything
  | .nested slots, ⟨_, proper⟩, path, j => by
    apply reports_decodeLevel
    intro path members
    exact (reports_decodeSlots slots proper path members).congr
      fun _ _ => DefectAt.level_object.symm

theorem reports_decodeSlots : ∀ slots : List (Slot Content), slotsProper table slots →
    ∀ path members, Reports (Among slots fun _ => SlotDefect path members)
      (decodeSlots slots path members)
  | [], _, path, members => .nil
  | ⟨key, responseKey, content⟩ :: rest, ⟨⟨_, proper⟩, restProper⟩, path, members => by
    have hrest := reports_decodeSlots rest restProper path members
    rw [decodeSlots]
    cases hfound : members.lookup responseKey with
    | none =>
      have hslot : ∀ place e, SlotDefect path members ⟨key, responseKey, content⟩ place e ↔
          place = [] ∧ e = .missingField (path ++ [.key key]) := by
        intro place e
        simp [SlotDefect, hfound]
      have hhead : @Reports Value (SlotDefect path members ⟨key, responseKey, content⟩)
          (.error (.missingField (path ++ [.key key]))) := .whole hslot
      change Reports _ (do
        let v ← (.error (.missingField (path ++ [.key key])) : Except DecodeError Value)
        return (key, v) :: (← decodeSlots rest path members))
      exact .cons (fun v others => (key, v) :: others) hhead hrest
    | some j =>
      have hslot : ∀ place e, DefectAt (path ++ [.key key]) ⟨content.expected, j⟩ place e ↔
          SlotDefect path members ⟨key, responseKey, content⟩ place e := by
        intro place e
        simp [SlotDefect, hfound]
      have hhead := (reports_decodeContent content proper (path ++ [.key key]) j).congr hslot
      exact .cons (fun v others => (key, v) :: others) hhead hrest

end

/-- The error of a response is that of its first defect. -/
theorem reports_decode {shape : Shape} (proper : (Content.nested shape).Proper table)
    (response : Json) :
    Reports (shape.Defect response) (shape.decode response) := by
  have hother : (∀ members, response ≠ .object members) → @Reports Value (shape.Defect response)
      (.error (.malformedResponse [] response.kind)) := by
    intro shapeless
    refine .whole fun place e => ?_
    constructor
    · rintro (_ | ⟨object, -⟩)
      · exact ⟨rfl, rfl⟩
      · exact absurd object (shapeless _)
    · rintro ⟨rfl, rfl⟩
      exact .root shapeless
  cases response with
  | object members =>
    apply Reports.map
    refine (reports_decodeSlots shape proper.2 [] members).congr fun place e => ?_
    rw [← DefectAt.level_object]
    constructor
    · exact .inside rfl
    · rintro (shapeless | ⟨-, within⟩)
      · exact absurd rfl (shapeless members)
      · exact within
  | null => exact hother nofun
  | bool b => exact hother nofun
  | number n => exact hother nofun
  | string s => exact hother nofun
  | array items => exact hother nofun

end Shape

end WireQuery
