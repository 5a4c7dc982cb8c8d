import WireQuery.Proofs.Result.Faithful

/-!
# What is not selected

Two responses that differ only in members that the shape does not ask for, in objects at any nested
level, are decoded alike: to the same value or to the same error. What stands at a scalar has to be
the same, as it may be passed through whole.
-/

namespace WireQuery
set_option autoImplicit false

/-- Two values of a nested level with arrays of the same lengths, where objects stand against
related objects and anything else against itself. -/
inductive Json.SameLevel (related : List (String × Json) → List (String × Json) → Prop) :
    Json → Json → Prop where
  | null : SameLevel related .null .null
  | bool (b : Bool) : SameLevel related (.bool b) (.bool b)
  | number (n : Json.Number) : SameLevel related (.number n) (.number n)
  | string (s : String) : SameLevel related (.string s) (.string s)
  | array {items items' : List Json} (each : List.Forall₂ (SameLevel related) items items') :
      SameLevel related (.array items) (.array items')
  | object {members members' : List (String × Json)} (h : related members members') :
      SameLevel related (.object members) (.object members')

mutual

/-- The values differ at most in members that nothing in the shape asks for. -/
def Content.SameSelected : Content → Json → Json → Prop
  | .leaf _, j, j' => j = j'
  | .nested slots, j, j' =>
    Json.SameLevel (fun members members' => slotsSameSelected slots members members') j j'

/-- Under each response key both objects have nothing, or values that differ only in what is not
asked for. Under other keys they may have anything. -/
def slotsSameSelected :
    List (Slot Content) → List (String × Json) → List (String × Json) → Prop
  | [], _, _ => True
  | slot :: rest, members, members' =>
    Option.Rel (fun j j' => slot.content.SameSelected j j') (members.lookup slot.responseKey)
      (members'.lookup slot.responseKey) ∧ slotsSameSelected rest members members'

end

theorem Json.sameLevel_refl {related : List (String × Json) → List (String × Json) → Prop}
    (h : ∀ members, related members members) (j : Json) : SameLevel related j j := by
  induction j using Json.induction with
  | null => exact .null
  | bool b => exact .bool b
  | number n => exact .number n
  | string s => exact .string s
  | array items ih => exact .array (List.forall₂_same.mpr ih)
  | object members _ => exact .object (h members)

mutual

theorem Content.sameSelected_refl : ∀ (content : Content) (j : Json), content.SameSelected j j
  | .leaf _, _ => rfl
  | .nested slots, j =>
    Json.sameLevel_refl (fun _ => slotsSameSelected_of_lookup slots fun _ _ => rfl) j

/-- Members may be added, changed and removed under keys that are no response keys. -/
theorem slotsSameSelected_of_lookup : ∀ (slots : List (Slot Content))
    {members members' : List (String × Json)},
    (∀ slot ∈ slots, members.lookup slot.responseKey = members'.lookup slot.responseKey) →
      slotsSameSelected slots members members'
  | [], _, _, _ => trivial
  | ⟨key, responseKey, content⟩ :: rest, members, members', h => by
    obtain ⟨hslot, hrest⟩ := List.forall_mem_cons.mp h
    refine ⟨?_, slotsSameSelected_of_lookup rest hrest⟩
    change Option.Rel _ (members.lookup responseKey) (members'.lookup responseKey)
    rw [← hslot]
    cases members.lookup responseKey with
    | none => exact .none
    | some j => exact .some (content.sameSelected_refl j)

end

namespace Shape

theorem decodeLevel_sameLevel {decodeMembers : ResultPath → List (String × Json) →
      Except DecodeError (List (String × Value))}
    {related : List (String × Json) → List (String × Json) → Prop}
    (objects : ∀ members members', related members members' → ∀ path,
      decodeMembers path members = decodeMembers path members')
    {j j' : Json} (h : Json.SameLevel related j j') (path : ResultPath) :
    decodeLevel decodeMembers path j = decodeLevel decodeMembers path j' := by
  induction j using Json.induction generalizing j' path with
  | array items ih =>
    cases h with
    | array each =>
      have hitems := Decoder.itemsFrom_congr each (fun item hitem _ hrelated path =>
        ih item hitem hrelated path) path 0
      rw [decodeLevel, decodeLevel, decodeLevels_eq_itemsFrom, decodeLevels_eq_itemsFrom, hitems]
  | object members _ =>
    cases h with
    | object hmembers => rw [decodeLevel, decodeLevel, objects _ _ hmembers]
  | _ =>
    cases h
    rfl

mutual

theorem decodeContent_sameSelected : ∀ (content : Content) {j j' : Json},
    content.SameSelected j j' → ∀ path : ResultPath,
      decodeContent content path j = decodeContent content path j'
  | .leaf _, _, _, rfl, _ => rfl
  | .nested slots, j, j', same, path => by
    have hlevel : Json.SameLevel
        (fun members members' => slotsSameSelected slots members members') j j' := same
    rw [decodeContent, decodeContent]
    apply decodeLevel_sameLevel _ hlevel
    exact fun _ _ => decodeSlots_sameSelected slots

theorem decodeSlots_sameSelected : ∀ (slots : List (Slot Content))
    {members members' : List (String × Json)}, slotsSameSelected slots members members' →
      ∀ path : ResultPath, decodeSlots slots path members = decodeSlots slots path members'
  | [], _, _, _, _ => rfl
  | ⟨key, responseKey, content⟩ :: rest, members, members', ⟨hslot, hrest⟩, path => by
    rw [decodeSlots, decodeSlots, decodeSlots_sameSelected rest hrest path]
    dsimp only at hslot ⊢
    generalize members.lookup responseKey = found at hslot ⊢
    generalize members'.lookup responseKey = found' at hslot ⊢
    cases hslot with
    | none => rfl
    | some same => simp only [decodeContent_sameSelected content same]

end

/-- Members that are not asked for have no influence: responses that differ only in such members, at
any level, give the same value or the same error. -/
theorem decode_unselected {shape : Shape} {response response' : Json}
    (same : (Content.nested shape).SameSelected response response') :
    shape.decode response = shape.decode response' := by
  have hlevel := decodeContent_sameSelected (.nested shape) same []
  cases same with
  | object h => exact hlevel
  | _ => rfl

/-- A list of lines and a line without a quantity. The members that are not asked for are given. -/
def partialResponse (inLine atRoot : List (String × Json)) : Json :=
  .object (atRoot ++ [("lines", .array [
    .array [.object (inLine ++ [("extra", .null), ("qty", .number (.integer (.ofInt64 1))),
      ("tags", .array [])])],
    .object [("tags", .null)]])])

theorem decode_unselected_partial :
    (Content.nested countedShape).SameSelected (partialResponse [("id", .string "l-1")] [])
        (partialResponse [] [("errors", .array []), ("id", .null)]) ∧
      countedShape.decode (partialResponse [("id", .string "l-1")] []) =
        .error (.missingField [.key "lines", .index 1, .key "qty"]) ∧
      countedShape.decode (partialResponse [] [("errors", .array []), ("id", .null)]) =
        .error (.missingField [.key "lines", .index 1, .key "qty"]) := by
  have same : (Content.nested countedShape).SameSelected
      (partialResponse [("id", .string "l-1")] [])
      (partialResponse [] [("errors", .array []), ("id", .null)]) := by
    refine .object ⟨.some (.array (.cons (.array (.cons (.object ?_) .nil))
      (.cons (.object ?_) .nil))), .none, trivial⟩
    · exact ⟨.some rfl, .some rfl, .some rfl, trivial⟩
    · exact slotsSameSelected_of_lookup _ fun _ _ => rfl
  have refused : countedShape.decode (partialResponse [("id", .string "l-1")] []) =
      .error (.missingField [.key "lines", .index 1, .key "qty"]) := by rfl
  exact ⟨same, refused, (decode_unselected same).symm.trans refused⟩

end Shape

end WireQuery
