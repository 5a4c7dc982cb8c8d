import WireQuery.Compile.Basic
import WireQuery.Proofs.Json.Normal
import WireQuery.Proofs.Result.Faithful

/-!
# Decoding again

The projection of a response decodes as the response does: it keeps everything that the shape asks
for, where the shape asks for it. A result that is read as JSON is such a projection, so decoding
it gives the same result.
-/

namespace WireQuery
set_option autoImplicit false

@[simp] theorem Json.Number.nearest_float (x : Binary64.Finite) : nearest (.float x) = x := by
  have heq := toBinary64_eq (.float x)
  exact (Binary64.finite.inj heq).symm

namespace WireType

theorem normalize_projection (kind : ScalarKind) (t : WireType) (j : Json) :
    (t.projection kind j).normalize = t.projection kind j.normalize := by
  induction t generalizing j with
  | named name =>
    cases j with
    | number n => by_cases hkind : kind = .number <;> simp [projection, Json.normalize, hkind]
    | _ => rfl
  | list element ih =>
    cases j with
    | array items =>
      simp only [projection, Json.normalize, Json.normalizeItems_eq_map, List.map_map,
        Function.comp_def, ih]
    | _ => rfl
  | nonNull inner ih => exact ih j

@[simp] theorem isNull_projection (kind : ScalarKind) (t : WireType) (j : Json) :
    (t.projection kind j).isNull = j.isNull := by
  induction t with
  | named name =>
    cases j with
    | number n => by_cases hkind : kind = .number <;> simp [projection, Json.isNull, hkind]
    | _ => rfl
  | list element ih => cases j <;> rfl
  | nonNull inner ih => exact ih

theorem decode_projection (kind : ScalarKind) (t : WireType) (path : ResultPath) (j : Json) :
    t.decode kind path (t.projection kind j) = t.decode kind path j := by
  induction t generalizing path j with
  | named name =>
    cases j with
    | number n =>
      by_cases hkind : kind = .number
      · -- The float that stands for a number is its own nearest.
        subst hkind
        simp [projection, decode, Json.isNull, ScalarKind.decode?, Json.Number.toBinary64_eq,
          Json.Number.nearest_float]
      · rw [projection, if_neg hkind]
    | _ => rfl
  | list element ih =>
    cases j with
    | array items =>
      have hitems : ∀ item ∈ items, ∀ path,
          element.decode kind path (element.projection kind item) = element.decode kind path item :=
        fun item _ path => ih path item
      rw [projection, decode, decode, Decoder.itemsFrom_map hitems]
    | _ => rfl
  | nonNull inner ih => rw [projection, decode, isNull_projection, ih, decode]

end WireType

theorem Leaf.decode_projection (leaf : Leaf) (path : ResultPath) {j : Json}
    (normal : j.normalize = j) :
    leaf.decode path (leaf.projection j).normalize = leaf.decode path j := by
  cases leaf with
  | typed type kind =>
    rw [projection, WireType.normalize_projection, normal, decode, WireType.decode_projection,
      decode]
  | untyped descriptor => rw [projection, normal]

namespace Shape

variable {decodeMembers : ResultPath → List (String × Json) →
  Except DecodeError (List (String × Value))}

/-- A level decodes alike after its objects have been replaced by others that decode alike. -/
theorem decodeLevel_mapLevel {f : List (String × Json) → List (String × Json)}
    (objects : ∀ members, (Json.object members).normalize = .object members → ∀ path,
      decodeMembers path (Keyed.sort (Json.normalizeMembers (f members))) =
        decodeMembers path members)
    {j : Json} (normal : j.normalize = j) (path : ResultPath) :
    decodeLevel decodeMembers path (j.mapLevel f).normalize =
      decodeLevel decodeMembers path j := by
  induction j using Json.induction generalizing path with
  | array items ih =>
    have hitems : ∀ item ∈ items, ∀ path,
        decodeLevel decodeMembers path (item.mapLevel f).normalize =
          decodeLevel decodeMembers path item :=
      fun item hitem path => ih item hitem (Json.normalize_eq_of_mem normal hitem) path
    rw [Json.mapLevel, Json.normalize, Json.mapLevels_eq_map, Json.normalizeItems_eq_map,
      List.map_map, decodeLevel, decodeLevel, decodeLevels_eq_itemsFrom, decodeLevels_eq_itemsFrom]
    exact congrArg _ (Decoder.itemsFrom_map hitems path 0)
  | object members _ =>
    rw [Json.mapLevel, Json.normalize, decodeLevel, objects members normal, decodeLevel]
  | _ => rfl

end Shape

mutual

/-- At every level the keys are distinct, and each slot stands under its key in the response. -/
def Content.Aligned : Content → Prop
  | .leaf _ => True
  | .nested slots => (slots.map Slot.key).Nodup ∧ slotsAligned slots

def slotsAligned : List (Slot Content) → Prop
  | [] => True
  | slot :: rest =>
    (slot.responseKey = slot.key ∧ slot.content.Aligned) ∧ slotsAligned rest

end

theorem keys_slotsProjection_sublist (slots : List (Slot Content))
    (members : List (String × Json)) :
    (Keyed.keys (slotsProjection slots members)).Sublist (slots.map Slot.key) := by
  induction slots with
  | nil => exact List.Sublist.slnil
  | cons slot rest ih =>
    rw [slotsProjection]
    cases members.lookup slot.responseKey with
    | none => exact ih.cons slot.key
    | some j => exact ih.cons_cons slot.key

theorem lookup_slotsProjection {slots : List (Slot Content)} (members : List (String × Json))
    (distinct : (slots.map Slot.key).Nodup) {slot : Slot Content} (hslot : slot ∈ slots) :
    (slotsProjection slots members).lookup slot.key =
      (members.lookup slot.responseKey).map slot.content.projection := by
  induction slots with
  | nil => cases hslot
  | cons first rest ih =>
    obtain ⟨hfirst, hrest⟩ := List.nodup_cons.mp distinct
    have hkeys := keys_slotsProjection_sublist rest members
    rw [slotsProjection]
    rcases List.mem_cons.mp hslot with rfl | hslot
    · cases members.lookup slot.responseKey with
      | none => exact Keyed.lookup_eq_none_of_not_mem fun h => hfirst (hkeys.subset h)
      | some j => exact (Keyed.lookup_cons_eq _ _ _).trans (if_pos rfl)
    · have hne : slot.key ≠ first.key := by
        intro heq
        rw [← heq] at hfirst
        exact hfirst (List.mem_map_of_mem hslot)
      rw [← ih hrest hslot]
      cases members.lookup first.responseKey with
      | none => rfl
      | some j => exact (Keyed.lookup_cons_eq _ _ _).trans (if_neg hne)

namespace Shape

mutual

theorem decodeContent_projection : ∀ (content : Content), content.Aligned →
    ∀ {j : Json}, j.normalize = j → ∀ path : ResultPath,
      decodeContent content path (content.projection j).normalize = decodeContent content path j
  | .leaf leaf, _, j, normal, path => leaf.decode_projection path normal
  | .nested slots, ⟨distinct, aligned⟩, j, normal, path => by
    rw [Content.projection, decodeContent, decodeContent]
    apply decodeLevel_mapLevel _ normal
    intro members normal path
    have hkept : Keyed.DistinctKeys (slotsProjection slots members) :=
      distinct.sublist (keys_slotsProjection_sublist slots members)
    apply decodeSlots_projection slots aligned normal
    intro slot hslot
    rw [Json.lookup_normalized hkept, lookup_slotsProjection members distinct hslot, Option.map_map]
    rfl

/-- Slots decode alike from the members of which they keep what they ask for. -/
theorem decodeSlots_projection : ∀ (slots : List (Slot Content)), slotsAligned slots →
    ∀ {members kept : List (String × Json)}, (Json.object members).normalize = .object members →
      (∀ slot ∈ slots, kept.lookup slot.key =
        (members.lookup slot.responseKey).map fun j => (slot.content.projection j).normalize) →
      ∀ path : ResultPath, decodeSlots slots path kept = decodeSlots slots path members
  | [], _, _, _, _, _, _ => by rw [decodeSlots, decodeSlots]
  | ⟨key, _, content⟩ :: rest, ⟨⟨rfl, aligned⟩, restAligned⟩, members, kept, normal, hkept,
      path => by
    obtain ⟨hslot, hrest⟩ := List.forall_mem_cons.mp hkept
    rw [decodeSlots, decodeSlots]
    dsimp only at hslot ⊢
    rw [hslot, decodeSlots_projection rest restAligned normal hrest]
    cases hfound : members.lookup key with
    | none => rfl
    | some j =>
      have hj := Json.normalize_eq_of_lookup normal hfound
      simp only [Option.map_some, decodeContent_projection content aligned hj]

end

/-- The projection of a response decodes as the response does. -/
theorem decode_projection {shape : Shape} (aligned : (Content.nested shape).Aligned)
    (response : Json) :
    shape.decode (shape.projection response.normalize).normalize =
      shape.decode response.normalize := by
  have hlevel := decodeContent_projection _ aligned response.normalize_idempotent []
  cases response with
  | object members => exact hlevel
  | _ => rfl

end Shape

namespace Node

mutual

theorem aligned (table : ScalarTable) : ∀ {node : Node}, node.WellKeyed →
    (node.content table).Aligned
  | scalar _ _, _ => trivial
  | group _ children, ⟨distinct, wellKeyed⟩ =>
    ⟨(keys_shape table children).symm ▸ distinct, slotsAligned_shape table wellKeyed⟩

theorem slotsAligned_shape (table : ScalarTable) : ∀ {children : List (String × Node)},
    ChildrenWellKeyed children → slotsAligned (shape table children)
  | [], _ => trivial
  | (key, node) :: _, ⟨wellKeyed, restWellKeyed⟩ =>
    ⟨⟨node.responseKey_field key, aligned table wellKeyed⟩,
      slotsAligned_shape table restWellKeyed⟩

end

end Node

/-- Decoding is idempotent: the result of a response, read as JSON, decodes to itself. -/
theorem Shape.decode_idempotent {root : Group}
    {operationName : Option String} {table : ScalarTable} {query : Query}
    (compiled : root.compile operationName table = .ok query) {response : Json} {v : Value}
    (decoded : query.shape.decode response.normalize = .ok v) :
    query.shape.decode v.toJson.normalize = .ok v := by
  obtain ⟨-, hjson⟩ := (Shape.decode_exact compiled response.normalize).2 v decoded
  have aligned : (Content.nested query.shape).Aligned := by
    obtain ⟨uses, definitions, -, -, rfl⟩ := Group.exists_of_compile compiled
    exact Node.aligned table root.wellKeyed
  rw [hjson, Shape.decode_projection aligned, decoded]

def countedValue : Value :=
  .object [("lines", .list [
    .object [("qty", .number (.finite ⟨false, 3 * 2 ^ 51, -51, by decide⟩)),
      ("tags", .list [.text "new", .null]), ("extra", .raw (.object [("z", .bool true)]))],
    .null, .list []]), ("count", .integer 2)]

theorem Shape.decode_idempotent_lines :
    ∃ query, countedLines.compile none .builtin = .ok query ∧
      query.shape.decode countedResponse.normalize = .ok countedValue ∧
      query.shape.decode countedValue.toJson.normalize = .ok countedValue := by
  have compiled : countedLines.compile none .builtin = .ok ⟨⟨none, [],
      Node.selections countedLines.children⟩, countedShape, .builtin⟩ := by with_unfolding_all rfl
  have decoded : countedShape.decode countedResponse.normalize = .ok countedValue := by rfl
  exact ⟨_, compiled, decoded, Shape.decode_idempotent compiled decoded⟩

end WireQuery
