import WireQuery.Proofs.Compile.Lockstep

/-!
# The levels of a shape

A shape has its own level and those nested in it. They are listed with the walks that lead to them,
inner levels before the level around them.
-/

namespace WireQuery
set_option autoImplicit false

mutual

def Content.levels : Content → List (Walk × List (Slot Content))
  | .leaf _ => []
  | .nested slots =>
    (slotsLevels slots).map (fun inner => (inner.1 :: inner.2.1, inner.2.2)) ++ [([], slots)]

/-- The levels inside slots, each with the index of its slot and the walk from there. -/
def slotsLevels : List (Slot Content) → List (Nat × Walk × List (Slot Content))
  | [] => []
  | slot :: rest =>
    slot.content.levels.map (fun level => (0, level)) ++
      (slotsLevels rest).map fun inner => (inner.1 + 1, inner.2)

end

/-- The levels of a shape, its own last. -/
def Shape.levels (shape : Shape) : List (Walk × List (Slot Content)) :=
  (Content.nested shape).levels

def Content.level? (content : Content) (walk : Walk) : Option (List (Slot Content)) :=
  content.slots?.bind (Shape.level? · walk)

@[simp] theorem Shape.level?_zero (slot : Slot Content) (rest : List (Slot Content)) (walk : Walk) :
    level? (slot :: rest) (0 :: walk) = slot.content.level? walk := rfl

@[simp] theorem Shape.level?_succ (slot : Slot Content) (rest : List (Slot Content)) (i : Nat)
    (walk : Walk) : level? (slot :: rest) ((i + 1) :: walk) = level? rest (i :: walk) := rfl

mutual

theorem Content.mem_levels : ∀ (content : Content) {walk : Walk} {found : List (Slot Content)},
    (walk, found) ∈ content.levels ↔ content.level? walk = some found
  | .leaf _, walk, found => by simp [Content.levels, Content.level?, Content.slots?]
  | .nested slots, walk, found => by
    rw [Content.levels, List.mem_append, List.mem_map, List.mem_singleton]
    constructor
    · rintro (⟨⟨i, inner, slots'⟩, hinner, heq⟩ | heq)
      · cases heq
        exact (mem_slotsLevels slots).mp hinner
      · cases heq
        rfl
    · intro h
      cases walk with
      | nil =>
        cases h
        exact Or.inr rfl
      | cons i walk => exact Or.inl ⟨(i, walk, found), (mem_slotsLevels slots).mpr h, rfl⟩

theorem mem_slotsLevels : ∀ (slots : List (Slot Content)) {i : Nat} {walk : Walk}
    {found : List (Slot Content)},
    (i, walk, found) ∈ slotsLevels slots ↔ Shape.level? slots (i :: walk) = some found
  | [], i, walk, found => by simp [slotsLevels, Shape.level?, Walk.level?]
  | ⟨_, _, content⟩ :: rest, i, walk, found => by
    rw [slotsLevels, List.mem_append, List.mem_map, List.mem_map]
    cases i with
    | zero =>
      rw [Shape.level?_zero, ← content.mem_levels]
      simp
    | succ i =>
      rw [Shape.level?_succ, ← mem_slotsLevels rest]
      simp

end

@[simp] theorem Shape.mem_levels {shape : Shape} {walk : Walk} {found : List (Slot Content)} :
    (walk, found) ∈ shape.levels ↔ shape.level? walk = some found :=
  Content.mem_levels (.nested shape)

theorem Walk.level?_concat {α : Type} (inside : α → Option (List α)) (walk : Walk) (i : Nat)
    (level : List α) :
    (walk ++ [i]).level? inside level =
      (walk.level? inside level).bind fun found => found[i]?.bind inside := by
  induction walk generalizing level with
  | nil => simp [level?]
  | cons j walk ih =>
    have hinside : level? inside (walk ++ [i]) =
        fun level => (level? inside walk level).bind fun found => found[i]?.bind inside := funext ih
    simp only [List.cons_append, level?, hinside, Option.bind_assoc]

theorem Shape.level?_concat {shape : Shape} {walk : Walk} {slots inner : List (Slot Content)}
    (h : shape.level? walk = some slots) {i : Nat} {slot : Slot Content}
    (hslot : slots[i]? = some slot) (hinner : slot.content = .nested inner) :
    shape.level? (walk ++ [i]) = some inner := by
  rw [level?] at h
  rw [level?, Walk.level?_concat, h, Option.bind_some, hslot, Option.bind_some, hinner]
  rfl

/-- Only a slot with a level inside leads to other levels. -/
theorem Shape.any_isNested {shape : Shape} :
    shape.any (fun slot => slot.content.isNested) = true ↔
      ∃ walk, walk ≠ [] ∧ (shape.level? walk).isSome = true := by
  constructor
  · intro h
    obtain ⟨slot, hslot, hnested⟩ := List.any_eq_true.mp h
    obtain ⟨i, hi⟩ := List.getElem?_of_mem hslot
    cases hcontent : slot.content with
    | leaf leaf => simp [hcontent, Content.isNested] at hnested
    | nested slots =>
      refine ⟨[i], List.cons_ne_nil i [], ?_⟩
      simp [level?, Walk.level?, hi, hcontent, Content.slots?]
  · rintro ⟨walk, hwalk, hlevel⟩
    cases walk with
    | nil => exact absurd rfl hwalk
    | cons i walk =>
      obtain ⟨found, hfound⟩ := Option.isSome_iff_exists.mp hlevel
      obtain ⟨slot, hslot, hfound⟩ := Option.bind_eq_some_iff.mp hfound
      obtain ⟨slots, hslots, -⟩ := Option.bind_eq_some_iff.mp hfound
      refine List.any_eq_true.mpr ⟨slot, List.mem_of_getElem? hslot, ?_⟩
      cases hcontent : slot.content with
      | leaf leaf => simp [hcontent, Content.slots?] at hslots
      | nested slots => rfl

end WireQuery
