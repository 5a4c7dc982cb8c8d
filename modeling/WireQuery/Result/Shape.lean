import WireQuery.Scalar.Table
import WireQuery.WireType.Reader

/-!
# Result shapes

A shape says where each value of a specification stands in a response and how it is decoded. It
has one slot for every key, in the specification's order.
-/

namespace WireQuery
set_option autoImplicit false

/-- How a scalar is decoded. A descriptor that is no type passes its value through. -/
inductive Leaf where
  | typed (type : WireType) (kind : ScalarKind)
  | untyped (descriptor : String)
  deriving DecidableEq, Repr

namespace Leaf

/-- The leaf of a descriptor; the kind is that of the innermost type. -/
def ofDescriptor (table : ScalarTable) (descriptor : String) : Leaf :=
  match WireType.read descriptor with
  | .ok type => typed type (table.kindOf type.baseName)
  | .error _ => untyped descriptor

def kind : Leaf → ScalarKind
  | typed _ kind => kind
  | untyped _ => .unknown

end Leaf

/-- A place in a result: the key there, the key in the response, and what stands under it. -/
structure Slot (α : Type) where
  key : String
  responseKey : String
  content : α
  deriving Repr, BEq

/-- What stands in a slot. -/
inductive Content where
  | leaf (leaf : Leaf)
  | nested (slots : List (Slot Content))
  deriving Repr, BEq

def Content.isNested : Content → Bool
  | .nested _ => true
  | .leaf _ => false

/-- The slots of one level. -/
abbrev Shape := List (Slot Content)

namespace Shape

/-- The slot of a key. -/
def slot? (shape : Shape) (key : String) : Option (Slot Content) :=
  shape.find? (fun slot => slot.key == key)

end Shape

end WireQuery
