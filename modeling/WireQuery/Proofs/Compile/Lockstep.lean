import WireQuery.Proofs.Compile.Acceptance
import WireQuery.Compile.Basic
import WireQuery.Proofs.Document.Names
import WireQuery.Proofs.Document.RoundTrip

/-!
# Specifications, selections and slots in lockstep

A walk goes down a tree by the indices of items. Taken through a specification, the selections of
its document and the slots of its shape, the same walk comes to a level in all of them or in none,
and the levels agree position by position.
-/

namespace WireQuery
set_option autoImplicit false

/-- Indices that lead down a tree from level to level. -/
abbrev Walk := List Nat

/-- The level that a walk leads to. Each step goes into the item at an index, if that item has a
level inside. -/
def Walk.level? {α : Type} (inside : α → Option (List α)) : Walk → List α → Option (List α)
  | [], level => some level
  | i :: walk, level => level[i]?.bind fun item => (inside item).bind (level? inside walk)

def Node.children? : Node → Option (List (String × Node))
  | scalar _ _ => none
  | group _ children => some children

def Content.slots? : Content → Option (List (Slot Content))
  | leaf _ => none
  | nested slots => some slots

def Group.level? (root : Group) (walk : Walk) : Option (List (String × Node)) :=
  walk.level? (fun child => child.2.children?) root.children

def Document.level? (document : Document) (walk : Walk) : Option (List Selection) :=
  walk.level? Selection.selections? document.selections

def Shape.level? (shape : Shape) (walk : Walk) : Option (List (Slot Content)) :=
  walk.level? (fun slot => slot.content.slots?) shape

/-- A node under its key, a selection and a slot that stand at one position. -/
structure Agrees (key : String) (node : Node) (s : Selection) (slot : Slot Content) : Prop where
  slotKey : slot.key = key
  slotResponseKey : slot.responseKey = key
  responseKey : s.responseKey = key
  name : s.field.name = node.wireName key
  renamed : s.field.aliasName.isSome = true ↔ node.wireName key ≠ key
  aliasName : ∀ text, s.field.aliasName = some text → text = key
  arguments : (s.field.arguments.map Argument.name).Nodup
  nested : s.selections?.isSome = true ↔ slot.content.isNested = true
  group : s.selections?.isSome = true ↔ node.children?.isSome = true

/-- Three levels of the same length that agree at every position. -/
structure Mirrors (children : List (String × Node)) (selections : List Selection)
    (slots : List (Slot Content)) : Prop where
  selectionsLength : selections.length = children.length
  slotsLength : slots.length = children.length
  populated : selections ≠ []
  distinct : (selections.map Selection.responseKey).Nodup
  agrees : ∀ (i : Nat) key node s slot, children[i]? = some (key, node) →
    selections[i]? = some s → slots[i]? = some slot → Agrees key node s slot

/-- A walk leads alike through trees that are built alike. -/
theorem Walk.level?_map {α β : Type} {inside : α → Option (List α)}
    {inside' : β → Option (List β)} {f : α → β}
    (h : ∀ a, inside' (f a) = (inside a).map (List.map f)) (walk : Walk) (level : List α) :
    walk.level? inside' (level.map f) = (walk.level? inside level).map (List.map f) := by
  induction walk generalizing level with
  | nil => rfl
  | cons i walk ih =>
    rw [level?, level?, List.getElem?_map]
    cases level[i]? with
    | none => rfl
    | some item =>
      simp only [Option.map_some, Option.bind_some, h]
      cases inside item with
      | none => rfl
      | some inner => exact ih inner

namespace Node

variable {children : List (String × Node)}

theorem level?_selections (walk : Walk) (children : List (String × Node)) :
    walk.level? Selection.selections? (selections children) =
      (walk.level? (fun child => child.2.children?) children).map selections := by
  have hmap : selections = List.map fun child => child.2.selection child.1 :=
    funext selections_eq_map
  rw [hmap]
  apply Walk.level?_map
  rintro ⟨key, node⟩
  cases node with
  | scalar call descriptor => rfl
  | group call inner => exact congrArg some (selections_eq_map inner)

theorem level?_shape (table : ScalarTable) (walk : Walk) (children : List (String × Node)) :
    walk.level? (fun slot => slot.content.slots?) (shape table children) =
      (walk.level? (fun child => child.2.children?) children).map (shape table) := by
  have hmap : shape table = List.map fun child => ⟨child.1, child.1, child.2.content table⟩ :=
    funext (shape_eq_map table)
  rw [hmap]
  apply Walk.level?_map
  rintro ⟨key, node⟩
  cases node with
  | scalar call descriptor => rfl
  | group call inner => exact congrArg some (shape_eq_map table inner)

theorem exists_leadsTo_of_level? {walk : Walk} {found : List (String × Node)}
    (h : walk.level? (fun child => child.2.children?) children = some found) :
    ∃ path, LeadsTo children path found := by
  induction walk generalizing children with
  | nil =>
    cases h
    exact ⟨[], .here _⟩
  | cons i walk ih =>
    obtain ⟨⟨key, node⟩, hchild, h⟩ := Option.bind_eq_some_iff.mp h
    obtain ⟨inner, hinner, h⟩ := Option.bind_eq_some_iff.mp h
    cases node with
    | scalar call descriptor => cases hinner
    | group call inner =>
      cases hinner
      obtain ⟨path, hleads⟩ := ih h
      exact ⟨key :: path, .inside (List.mem_of_getElem? hchild) hleads⟩

theorem wellKeyed_of_leadsTo {path : List String} {found : List (String × Node)}
    (leads : LeadsTo children path found) (wellKeyed : (group none children).WellKeyed) :
    (group none found).WellKeyed := by
  induction leads with
  | here => exact wellKeyed
  | inside child within ih =>
    exact ih (childrenWellKeyed_iff.mp wellKeyed.2 _ child)

theorem distinct_arguments (key : String) (node : Node) :
    ((node.field key).arguments.map Argument.name).Nodup := by
  have hnames : (node.field key).arguments.map Argument.name =
      Keyed.keys node.callOrPlain.arguments := by
    rw [field, List.map_map]
    rfl
  rw [hnames]
  exact node.callOrPlain.distinct

theorem agrees (table : ScalarTable) (key : String) (node : Node) :
    Agrees key node (node.selection key) ⟨key, key, node.content table⟩ where
  slotKey := rfl
  slotResponseKey := rfl
  responseKey := responseKey_selection key node
  name := by simp [field]
  renamed := by by_cases h : node.wireName key = key <;> simp [field, h]
  aliasName := by by_cases h : node.wireName key = key <;> simp [field, h]
  arguments := by simpa using distinct_arguments key node
  nested := by cases node <;> simp [selection, content, Selection.selections?, Content.isNested]
  group := by cases node <;> simp [selection, children?, Selection.selections?]

theorem mirrors (table : ScalarTable) (populated : children ≠ [])
    (distinct : Keyed.DistinctKeys children) :
    Mirrors children (selections children) (shape table children) where
  selectionsLength := by rw [selections_eq_map, List.length_map]
  slotsLength := by rw [shape_eq_map, List.length_map]
  populated := by simpa [selections_eq_map] using populated
  distinct := by simpa using distinct
  agrees := by
    intro i key node s slot child hselection hslot
    rw [selections_eq_map, List.getElem?_map, child] at hselection
    rw [shape_eq_map, List.getElem?_map, child] at hslot
    cases hselection
    cases hslot
    exact agrees table key node

end Node

namespace Group

/-- Every walk comes to a level of the specification, of the selections and of the slots, or to
none of them, and the levels mirror each other. All names in the document are valid. -/
theorem document_mirrors_shape {root : Group} {operationName : Option String}
    {table : ScalarTable} {query : Query}
    (compiled : root.compile operationName table = .ok query) :
    (∀ walk, (query.document.level? walk).isSome = (root.level? walk).isSome ∧
      (query.shape.level? walk).isSome = (root.level? walk).isSome) ∧
    (∀ walk children selections slots, root.level? walk = some children →
      query.document.level? walk = some selections → query.shape.level? walk = some slots →
        Mirrors children selections slots) ∧
    NamesValid query.document.names := by
  -- Selections and slots are built child by child, so a walk through them is one through the tree.
  have compilable := compilable_of_compile compiled
  have valid := Document.namesValid (document_wellFormed compiled)
  obtain ⟨uses, definitions, -, -, rfl⟩ := exists_of_compile compiled
  have hselections := fun walk => Node.level?_selections walk root.children
  have hslots := fun walk => Node.level?_shape table walk root.children
  refine ⟨?_, ?_, valid⟩
  · intro walk
    constructor
    · rw [Document.level?, hselections, Option.isSome_map]
      rfl
    · rw [Shape.level?, hslots, Option.isSome_map]
      rfl
  · intro walk children selections slots hchildren hs hsl
    rw [level?] at hchildren
    rw [Document.level?, hselections, hchildren] at hs
    rw [Shape.level?, hslots, hchildren] at hsl
    cases hs
    cases hsl
    obtain ⟨path, leads⟩ := Node.exists_leadsTo_of_level? hchildren
    exact Node.mirrors table (compilable.populated path children leads)
      (Node.wellKeyed_of_leadsTo leads root.wellKeyed).1

/-- Two fields of an order, each under the name of the other. -/
def swappedNames : Group :=
  .ofList [("order", .group none [("id", .scalar (some (.ofList (some "number") [])) "ID!"),
    ("number", .scalar (some (.ofList (some "id") [])) "String")])]

theorem document_mirrors_swappedNames :
    ∃ query, swappedNames.compile none .builtin = .ok query ∧
      query.document.level? [0] =
        some [.leaf ⟨"number", some "id", []⟩, .leaf ⟨"id", some "number", []⟩] ∧
      (∃ children slots, swappedNames.level? [0] = some children ∧
        query.shape.level? [0] = some slots ∧
          Mirrors children
            [.leaf ⟨"number", some "id", []⟩, .leaf ⟨"id", some "number", []⟩] slots) ∧
      NamesValid query.document.names := by
  have compiled : swappedNames.compile none .builtin = .ok ⟨⟨none, [],
      Node.selections swappedNames.children⟩, Node.shape .builtin swappedNames.children,
        .builtin⟩ := by rfl
  obtain ⟨-, hmirrors, hnames⟩ := document_mirrors_shape compiled
  exact ⟨_, compiled, rfl, ⟨_, _, rfl, rfl, hmirrors [0] _ _ _ rfl rfl rfl⟩, hnames⟩

end Group

end WireQuery
