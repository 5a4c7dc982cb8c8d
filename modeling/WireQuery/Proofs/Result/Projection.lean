import Mathlib.Data.List.Forall2
import WireQuery.Proofs.Number.Finite
import WireQuery.Result.Shape
import WireQuery.Result.Value
import WireQuery.Spec.Basic

/-!
# What a response becomes

The projection of a response on a shape keeps what the slots ask for, each under the key of its
slot, and writes the numbers of number scalars as binary64. A value mirrors a response if its
objects have the keys of the specification and its lists the items of the arrays they come from.
-/

namespace WireQuery
set_option autoImplicit false

/-- The value with the numbers of a number scalar as binary64. -/
def WireType.projection (kind : ScalarKind) : WireType → Json → Json
  | named _, .number n => if kind = .number then .number (.float n.nearest) else .number n
  | named _, j => j
  | list element, .array items => .array (items.map (element.projection kind))
  | list _, j => j
  | nonNull inner, j => inner.projection kind j

def Leaf.projection : Leaf → Json → Json
  | typed type kind, j => type.projection kind j
  | untyped _, j => j

namespace Json

mutual

/-- Replaces the members of each object that stands at a nested level, within any arrays. -/
def mapLevel (f : List (String × Json) → List (String × Json)) : Json → Json
  | .object members => .object (f members)
  | .array items => .array (mapLevels f items)
  | j => j

def mapLevels (f : List (String × Json) → List (String × Json)) : List Json → List Json
  | [] => []
  | item :: rest => item.mapLevel f :: mapLevels f rest

end

end Json

mutual

def Content.projection : Content → Json → Json
  | .leaf leaf, j => leaf.projection j
  | .nested slots, j => j.mapLevel fun members => slotsProjection slots members

/-- The members that the slots ask for, in the order of the slots. -/
def slotsProjection : List (Slot Content) → List (String × Json) → List (String × Json)
  | [], _ => []
  | slot :: rest, members =>
    (members.lookup slot.responseKey).toList.map (fun j => (slot.key, slot.content.projection j)) ++
      slotsProjection rest members

end

/-- The projection of a response on a shape. -/
def Shape.projection (shape : Shape) (response : Json) : Json :=
  (Content.nested shape).projection response

namespace Value

/-- A value that a scalar position gives: null for null, a list for an array, item by item, a plain
value of the same content, or any other JSON value as it is. -/
inductive MirrorsScalar : Json → Value → Prop where
  | null : MirrorsScalar .null .null
  | bool (b : Bool) : MirrorsScalar (.bool b) (.bool b)
  | text (s : String) : MirrorsScalar (.string s) (.text s)
  | integer (n : Int64) : MirrorsScalar (.number (.integer (.ofInt64 n))) (.integer n)
  | number (n : Json.Number) : MirrorsScalar (.number n) (.number (.finite n.nearest))
  | list {items : List Json} {values : List Value}
      (each : List.Forall₂ MirrorsScalar items values) : MirrorsScalar (.array items) (.list values)
  | raw {j : Json} (present : j ≠ .null) : MirrorsScalar j (.raw j)

/-- A value that a nested level gives, where `fieldsOf` tells what objects become. -/
inductive MirrorsLevel (fieldsOf : List (String × Json) → List (String × Value) → Prop) :
    Json → Value → Prop where
  | null : MirrorsLevel fieldsOf .null .null
  | list {items : List Json} {values : List Value}
      (each : List.Forall₂ (MirrorsLevel fieldsOf) items values) :
      MirrorsLevel fieldsOf (.array items) (.list values)
  | object {members : List (String × Json)} {fields : List (String × Value)}
      (formed : fieldsOf members fields) : MirrorsLevel fieldsOf (.object members) (.object fields)

end Value

namespace Node

mutual

/-- The value is what a node makes of a JSON value: one field for each key of the specification,
in order, and one item for each item. -/
def Mirrors : Node → Json → Value → Prop
  | scalar _ _, j, v => Value.MirrorsScalar j v
  | group _ children, j, v =>
    Value.MirrorsLevel (fun members fields => childrenMirror children members fields) j v

def childrenMirror :
    List (String × Node) → List (String × Json) → List (String × Value) → Prop
  | [], _, fields => fields = []
  | child :: rest, members, fields => ∃ j v others, fields = (child.1, v) :: others ∧
    members.lookup child.1 = some j ∧ child.2.Mirrors j v ∧ childrenMirror rest members others

end

end Node

end WireQuery
