import WireQuery.Result.Shape
import WireQuery.Result.Value

/-!
# Decoding responses

A response is decoded through the shape of its query. At a nested level an object gives its slots
in order, an array is decoded item by item, and null stays null. At a scalar the type says where
null and lists may stand, and the kind says what the innermost value has to be. The first defect
in the order of keys and items is reported with its path.
-/

namespace WireQuery
set_option autoImplicit false

inductive PathStep where
  | key (key : String)
  | index (index : Nat)
  deriving DecidableEq, Repr

/-- The way from the root of a result to a value in it, by keys of the specification and by places
in lists. -/
abbrev ResultPath := List PathStep

namespace ResultPath

/-- A step as it is written after other steps. -/
def stepText : PathStep → String
  | .key key => "." ++ key
  | .index index => "[" ++ index.repr ++ "]"

/-- A path such as `order.lines[2].qty`. The root has no text. -/
def text : ResultPath → String
  | [] => ""
  | .key key :: rest => key ++ String.join (rest.map stepText)
  | .index index :: rest => String.join ((.index index :: rest).map stepText)

end ResultPath

inductive DecodeError where
  | missingField (path : ResultPath)
  | unexpectedNull (path : ResultPath)
  | scalarMismatch (path : ResultPath) (expected : WireType) (found : Json.Kind)
  /-- A nested level that is neither an object, an array nor null. -/
  | malformedResponse (path : ResultPath) (found : Json.Kind)
  deriving DecidableEq, Repr

namespace DecodeError

/-- Where a nested level stands in the response. -/
def levelText (path : ResultPath) : String :=
  if path.text.isEmpty then "response root" else "`" ++ path.text ++ "`"

def message : DecodeError → String
  | missingField path => "response is missing field `" ++ path.text ++ "`"
  | unexpectedNull path => "unexpected null at `" ++ path.text ++ "`"
  | scalarMismatch path expected found =>
    "expected `" ++ expected.text ++ "` at `" ++ path.text ++ "`, found " ++ found.text
  | malformedResponse path found =>
    "malformed response at " ++ levelText path ++ ": found " ++ found.text

end DecodeError

/-- Decodes what stands at a path. -/
abbrev Decoder (α : Type) := ResultPath → Json → Except DecodeError α

namespace Decoder

/-- Decodes the items from the `start`-th on. -/
def itemsFrom (decode : Decoder Value) (path : ResultPath) :
    (start : Nat) → List Json → Except DecodeError (List Value)
  | _, [] => .ok []
  | start, item :: rest => do
    let value ← decode (path ++ [.index start]) item
    return value :: (← itemsFrom decode path (start + 1) rest)

end Decoder

namespace ScalarKind

/-- The value of an innermost scalar, if it fits the kind. -/
def decode? : ScalarKind → Json → Option Value
  | text, .string s => some (.text s)
  | integer, .number (.integer n) => n.toInt64?.map Value.integer
  | number, .number n => some (.number n.toBinary64)
  | boolean, .bool b => some (.bool b)
  | unknown, j => some (.raw j)
  | _, _ => none

end ScalarKind

namespace WireType

/-- Decodes a scalar of this type, whose innermost values are of the given kind. -/
def decode (kind : ScalarKind) : WireType → Decoder Value
  | named name, path, j =>
    if j.isNull then .ok .null
    else
      match kind.decode? j with
      | some value => .ok value
      | none => .error (.scalarMismatch path (named name) j.kind)
  | list element, path, j =>
    match j with
    | .null => .ok .null
    | .array items => .list <$> Decoder.itemsFrom (element.decode kind) path 0 items
    | _ => .error (.scalarMismatch path (list element) j.kind)
  | nonNull inner, path, j =>
    if j.isNull then .error (.unexpectedNull path) else inner.decode kind path j

end WireType

namespace Leaf

def decode : Leaf → Decoder Value
  | typed type kind, path, j => type.decode kind path j
  | untyped _, _, j => .ok (if j.isNull then .null else .raw j)

end Leaf

namespace Shape

mutual

/-- Decodes a nested level whose objects `decodeMembers` decodes. -/
def decodeLevel (decodeMembers : ResultPath → List (String × Json) →
    Except DecodeError (List (String × Value))) : ResultPath → Json → Except DecodeError Value
  | path, .object members => .object <$> decodeMembers path members
  | path, .array items => .list <$> decodeLevels decodeMembers path 0 items
  | _, .null => .ok .null
  | path, j => .error (.malformedResponse path j.kind)

def decodeLevels (decodeMembers : ResultPath → List (String × Json) →
    Except DecodeError (List (String × Value))) (path : ResultPath) :
    (start : Nat) → List Json → Except DecodeError (List Value)
  | _, [] => .ok []
  | start, item :: rest => do
    let value ← decodeLevel decodeMembers (path ++ [.index start]) item
    return value :: (← decodeLevels decodeMembers path (start + 1) rest)

end

mutual

/-- Decodes what stands in a slot. -/
def decodeContent : Content → Decoder Value
  | .leaf leaf, path, j => leaf.decode path j
  | .nested slots, path, j =>
    decodeLevel (fun path members => decodeSlots slots path members) path j

/-- Decodes the members of an object, slot by slot. -/
def decodeSlots : List (Slot Content) → ResultPath → List (String × Json) →
    Except DecodeError (List (String × Value))
  | [], _, _ => .ok []
  | slot :: rest, path, members => do
    let here := path ++ [.key slot.key]
    match members.lookup slot.responseKey with
    | none => .error (.missingField here)
    | some j =>
      let value ← decodeContent slot.content here j
      return (slot.key, value) :: (← decodeSlots rest path members)

end

/-- Decodes a response, which has to be an object. -/
def decode (shape : Shape) (response : Json) : Except DecodeError Value :=
  match response with
  | .object members => .object <$> decodeSlots shape [] members
  | j => .error (.malformedResponse [] j.kind)

end Shape

end WireQuery
