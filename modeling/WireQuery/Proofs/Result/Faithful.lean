import WireQuery.Proofs.Compile.Met
import WireQuery.Proofs.Result.Decoding
import WireQuery.Proofs.Spec.Grammar

/-!
# Decoding is faithful

A response is decoded exactly if it fits the compiled shape. The result mirrors the response in
the keys of the specification, and as JSON it is the projection of the response on the shape.
-/

namespace WireQuery
set_option autoImplicit false

theorem Json.mapLevels_eq_map (f : List (String × Json) → List (String × Json))
    (items : List Json) : mapLevels f items = items.map (mapLevel f) := by
  induction items with
  | nil => rfl
  | cons item rest ih => rw [mapLevels, ih, List.map_cons]

/-- A decoder of objects, with the objects that it takes, what it makes of them, and how that is
written as JSON. -/
structure Shape.ObjectDecoder where
  decode : ResultPath → List (String × Json) → Except DecodeError (List (String × Value))
  fits : List (String × Json) → Prop
  gives : List (String × Json) → List (String × Value) → Prop
  projection : List (String × Json) → List (String × Json)
  succeeds : ∀ path members, fits members → ∃ fields, decode path members = .ok fields
  sound : ∀ path members fields, decode path members = .ok fields →
    fits members ∧ gives members fields ∧ Value.fieldsToJson fields = projection members

namespace Shape

variable (objects : ObjectDecoder)

theorem decodeLevel_succeeds {j : Json} (h : j.Leveled objects.fits) (path : ResultPath) :
    ∃ v, decodeLevel objects.decode path j = .ok v := by
  induction h generalizing path with
  | null => exact ⟨.null, by rw [decodeLevel]⟩
  | array each ih =>
    obtain ⟨values, hvalues⟩ := Decoder.itemsFrom_succeeds ih path 0
    exact ⟨.list values, by rw [decodeLevel, decodeLevels_eq_itemsFrom, hvalues]; rfl⟩
  | object formed =>
    obtain ⟨fields, hfields⟩ := objects.succeeds path _ formed
    exact ⟨.object fields, by rw [decodeLevel, hfields]; rfl⟩

theorem decodeLevel_sound (j : Json) (path : ResultPath) (v : Value)
    (decoded : decodeLevel objects.decode path j = .ok v) :
    j.Leveled objects.fits ∧ Value.MirrorsLevel objects.gives j v ∧
      v.toJson = j.mapLevel objects.projection := by
  induction j using Json.induction generalizing path v with
  | object members _ =>
    rw [decodeLevel] at decoded
    obtain ⟨fields, hfields, rfl⟩ := Outcome.map_eq_ok.mp decoded
    obtain ⟨hfits, hgives, hjson⟩ := objects.sound path members fields hfields
    refine ⟨.object hfits, .object hgives, ?_⟩
    rw [Value.toJson, hjson, Json.mapLevel]
  | array items ih =>
    rw [decodeLevel, decodeLevels_eq_itemsFrom] at decoded
    obtain ⟨values, hvalues, rfl⟩ := Outcome.map_eq_ok.mp decoded
    obtain ⟨hfits, hall⟩ := Decoder.itemsFrom_sound ih hvalues
    obtain ⟨hgives, hjson⟩ := Value.itemsToJson_of_forall₂ hall
    refine ⟨.array hfits, .list hgives, ?_⟩
    rw [Value.toJson, hjson, Json.mapLevel, Json.mapLevels_eq_map]
  | null =>
    rw [decodeLevel] at decoded
    cases decoded
    exact ⟨.null, .null, rfl⟩
  | bool b => simp [decodeLevel] at decoded
  | number n => simp [decodeLevel] at decoded
  | string s => simp [decodeLevel] at decoded

end Shape

namespace Node

mutual

theorem decodeContent_answers (table : ScalarTable) : ∀ node : Node,
    Decoder.Answers (Shape.decodeContent (node.content table)) (node.content table).Fits
      fun j v => node.Mirrors j v ∧ v.toJson = (node.content table).projection j
  | .scalar call descriptor => by
    have h := Leaf.decode_answers (.ofDescriptor table descriptor)
    exact ⟨h.succeeds, h.sound⟩
  | .group call children =>
    let objects : Shape.ObjectDecoder :=
      { decode := Shape.decodeSlots (shape table children)
        fits := slotsFit (shape table children)
        gives := childrenMirror children
        projection := slotsProjection (shape table children)
        succeeds := decodeSlots_succeeds table children
        sound := decodeSlots_sound table children }
    { succeeds := fun path _ hfits => Shape.decodeLevel_succeeds objects hfits path
      sound := fun path j v decoded => Shape.decodeLevel_sound objects j path v decoded }

theorem decodeSlots_succeeds (table : ScalarTable) : ∀ (children : List (String × Node))
    (path : ResultPath) (members : List (String × Json)), slotsFit (shape table children) members →
      ∃ fields, Shape.decodeSlots (shape table children) path members = .ok fields
  | [], path, members, _ => ⟨[], rfl⟩
  | (key, node) :: rest, path, members, ⟨⟨j, hj, hfits⟩, hrest⟩ => by
    obtain ⟨v, hv⟩ := (decodeContent_answers table node).succeeds (path ++ [.key key]) j hfits
    obtain ⟨fields, hfields⟩ := decodeSlots_succeeds table rest path members hrest
    refine ⟨(key, v) :: fields, ?_⟩
    rw [shape, Shape.decodeSlots]
    simp only [hj, hv, hfields]
    rfl

theorem decodeSlots_sound (table : ScalarTable) : ∀ (children : List (String × Node))
    (path : ResultPath) (members : List (String × Json)) (fields : List (String × Value)),
      Shape.decodeSlots (shape table children) path members = .ok fields →
        slotsFit (shape table children) members ∧ childrenMirror children members fields ∧
          Value.fieldsToJson fields = slotsProjection (shape table children) members
  | [], path, members, fields, decoded => by
    rw [shape, Shape.decodeSlots] at decoded
    cases decoded
    exact ⟨trivial, rfl, rfl⟩
  | (key, node) :: rest, path, members, fields, decoded => by
    rw [shape, Shape.decodeSlots] at decoded
    dsimp only at decoded
    rw [responseKey_field] at decoded
    split at decoded
    · cases decoded
    · next j hj =>
      obtain ⟨v, hv, decoded⟩ := Outcome.bind_eq_ok.mp decoded
      obtain ⟨others, hothers, heq⟩ := Outcome.bind_eq_ok.mp decoded
      cases heq
      obtain ⟨hfits, hmirrors, hjson⟩ := (decodeContent_answers table node).sound _ j v hv
      obtain ⟨hrest, hothersMirror, hjsons⟩ :=
        decodeSlots_sound table rest path members others hothers
      refine ⟨⟨⟨j, ?_, hfits⟩, hrest⟩, ⟨j, v, others, rfl, hj, hmirrors, hothersMirror⟩, ?_⟩
      · simpa using hj
      · rw [Value.fieldsToJson, shape, slotsProjection, responseKey_field, hj, hjson, hjsons]
        rfl

end

end Node

/-- A response is decoded exactly if it fits the shape of the query. The value has the keys of the
specification at every level and an item for each item of an array, and as JSON it is what the
shape selects of the response. -/
theorem Shape.decode_exact {root : Group} {operationName : Option String} {table : ScalarTable}
    {query : Query} (compiled : root.compile operationName table = .ok query) (response : Json) :
    ((∃ v, query.shape.decode response = .ok v) ↔ query.shape.Fits response) ∧
    ∀ v, query.shape.decode response = .ok v →
      (Node.group none root.children).Mirrors response v ∧
        v.toJson = query.shape.projection response := by
  obtain ⟨uses, definitions, -, -, rfl⟩ := Group.exists_of_compile compiled
  have hlevel := Node.decodeContent_answers table (.group none root.children)
  have hdecode : ∀ members, (Node.shape table root.children).decode (.object members) =
      Shape.decodeContent ((Node.group none root.children).content table) [] (.object members) :=
    fun _ => rfl
  have hobject : ∀ v, (Node.shape table root.children).decode response = .ok v →
      ∃ members, response = .object members := by
    intro v decoded
    cases response with
    | object members => exact ⟨members, rfl⟩
    | _ => cases decoded
  refine ⟨⟨?_, ?_⟩, ?_⟩
  · rintro ⟨v, decoded⟩
    obtain ⟨members, rfl⟩ := hobject v decoded
    rw [hdecode] at decoded
    exact ⟨⟨members, rfl⟩, (hlevel.sound [] _ v decoded).1⟩
  · rintro ⟨⟨members, rfl⟩, hfits⟩
    obtain ⟨v, decoded⟩ := hlevel.succeeds [] _ hfits
    exact ⟨v, decoded⟩
  · intro v decoded
    obtain ⟨members, rfl⟩ := hobject v decoded
    rw [hdecode] at decoded
    exact (hlevel.sound [] _ v decoded).2

/-- Lines with a number, a list and a descriptor that is no type. -/
def countedLines : Group :=
  .ofList [("lines", .group (some (.ofList (some "items") [])) [("qty", .scalar none "Number!"),
      ("tags", .scalar none "[String]"), ("extra", .scalar none "map of all")]),
    ("count", .scalar none "Int!")]

def countedShape : Shape :=
  [⟨"lines", "lines", .nested [
      ⟨"qty", "qty", .leaf (.typed (.nonNull (.named "Number")) .number)⟩,
      ⟨"tags", "tags", .leaf (.typed (.list (.named "String")) .text)⟩,
      ⟨"extra", "extra", .leaf (.untyped "map of all")⟩]⟩,
    ⟨"count", "count", .leaf (.typed (.nonNull (.named "Int")) .integer)⟩]

/-- One line, a null and an empty list of lines, beside a member that is not asked for. -/
def countedResponse : Json :=
  .object [("count", .number (.integer ⟨2, by decide, by decide⟩)), ("lines", .array [
    .object [("extra", .object [("z", .bool true)]),
      ("qty", .number (.integer ⟨3, by decide, by decide⟩)),
      ("tags", .array [.string "new", .null])],
    .null, .array []]), ("token", .string "t")]

theorem Shape.decode_exact_lines :
    ∃ query, countedLines.compile none .builtin = .ok query ∧
      query.shape.Fits countedResponse ∧
      ∃ v, query.shape.decode countedResponse = .ok v ∧
        (Node.group none countedLines.children).Mirrors countedResponse v ∧
        v.toJson = .object [("lines", .array [
          .object [("qty", .number (.float ⟨false, 3 * 2 ^ 51, -51, by decide⟩)),
            ("tags", .array [.string "new", .null]), ("extra", .object [("z", .bool true)])],
          .null, .array []]), ("count", .number (.integer ⟨2, by decide, by decide⟩))] := by
  have compiled : countedLines.compile none .builtin = .ok ⟨⟨none, [],
      Node.selections countedLines.children⟩, countedShape, .builtin⟩ := by with_unfolding_all rfl
  let v : Value := .object [("lines", .list [
      .object [("qty", .number (.finite ⟨false, 3 * 2 ^ 51, -51, by decide⟩)),
        ("tags", .list [.text "new", .null]), ("extra", .raw (.object [("z", .bool true)]))],
      .null, .list []]), ("count", .integer 2)]
  have decoded : countedShape.decode countedResponse = .ok v := by rfl
  obtain ⟨hfits, hgives⟩ := Shape.decode_exact compiled countedResponse
  obtain ⟨hmirrors, hjson⟩ := hgives v decoded
  exact ⟨_, compiled, hfits.mp ⟨v, decoded⟩, v, decoded, hmirrors, by rfl⟩

end WireQuery
