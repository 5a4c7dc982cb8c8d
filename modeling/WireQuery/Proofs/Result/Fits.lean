import WireQuery.Result.Shape

/-!
# Values that fit

Which JSON values a type, a leaf and a shape admit, said without decoding anything. At a nested
level null fits, and so do objects that have what the slots ask for, within any arrays.
-/

namespace WireQuery
set_option autoImplicit false

namespace WireType

/-- Whether a value fits the type, where `kind` is that of the innermost values. -/
def Fits (kind : ScalarKind) : WireType → Json → Prop
  | named _, j => j = .null ∨ kind.accepts j = true
  | list element, j =>
    j = .null ∨ ∃ items, j = .array items ∧ ∀ item ∈ items, element.Fits kind item
  | nonNull inner, j => j ≠ .null ∧ inner.Fits kind j

end WireType

def Leaf.Fits : Leaf → Json → Prop
  | typed type kind, j => type.Fits kind j
  | untyped _, _ => True

/-- A value of a nested level: null, an array of such values, or an object of a given form. -/
inductive Json.Leveled (form : List (String × Json) → Prop) : Json → Prop where
  | null : Leveled form .null
  | array {items : List Json} (each : ∀ item ∈ items, Leveled form item) :
      Leveled form (.array items)
  | object {members : List (String × Json)} (formed : form members) :
      Leveled form (.object members)

mutual

def Content.Fits : Content → Json → Prop
  | .leaf leaf, j => leaf.Fits j
  | .nested slots, j => j.Leveled fun members => slotsFit slots members

/-- Every slot finds its response key, and what stands there fits. -/
def slotsFit : List (Slot Content) → List (String × Json) → Prop
  | [], _ => True
  | slot :: rest, members =>
    (∃ j, members.lookup slot.responseKey = some j ∧ slot.content.Fits j) ∧ slotsFit rest members

end

namespace Shape

/-- A response fits a shape if it is an object that has what the slots ask for. -/
def Fits (shape : Shape) (response : Json) : Prop :=
  (∃ members, response = .object members) ∧ (Content.nested shape).Fits response

end Shape

end WireQuery
