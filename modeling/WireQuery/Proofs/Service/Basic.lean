import WireQuery.Request.Bindings
import WireQuery.Result.Decoder
import WireQuery.Spec.Basic

/-!
# Reference services

A service answers questions about its objects: which JSON value a terminal field has, and which
nested result a field with selections has. A question is the name of a field and its arguments
with their values.

A document is executed by asking for its fields one by one. A specification has a meaning of its
own, which asks the service for what the specification says and reads the answers in place. It
knows no document, no alias and no shape.
-/

namespace WireQuery
set_option autoImplicit false

universe u

/-- Whether a value is neither null, an array nor an object. -/
def Json.isPlain : Json → Bool
  | .null | .array _ | .object _ => false
  | .bool _ | .number _ | .string _ => true

/-- What a field with selections has. -/
inductive NestedResult (Obj : Type u) where
  | null
  | list (items : List (NestedResult Obj))
  | object (o : Obj)
  | other (value : Json) (plain : value.isPlain = true)

structure Service (Obj : Type u) where
  terminal : Obj → String → List (String × Json) → Json
  nested : Obj → String → List (String × Json) → NestedResult Obj

namespace NestedResult

variable {Obj : Type u}

mutual

/-- The result as JSON, with each object in the form that `write` gives it. -/
def toJson (write : Obj → Json) : NestedResult Obj → Json
  | null => .null
  | list items => .array (itemsToJson write items)
  | object o => write o
  | other value _ => value

def itemsToJson (write : Obj → Json) : List (NestedResult Obj) → List Json
  | [] => []
  | item :: rest => item.toJson write :: itemsToJson write rest

end

mutual

/-- The value of a nested result at a path, where `read` gives the values of objects. -/
def value (read : ResultPath → Obj → Except DecodeError Value) :
    ResultPath → NestedResult Obj → Except DecodeError Value
  | _, null => .ok .null
  | path, list items => .list <$> valuesFrom read path 0 items
  | path, object o => read path o
  | path, other j _ => .error (.malformedResponse path j.kind)

/-- The values of the items from the `start`-th on. -/
def valuesFrom (read : ResultPath → Obj → Except DecodeError Value) (path : ResultPath) :
    (start : Nat) → List (NestedResult Obj) → Except DecodeError (List Value)
  | _, [] => .ok []
  | start, item :: rest => do
    let first ← value read (path ++ [.index start]) item
    return first :: (← valuesFrom read path (start + 1) rest)

end

end NestedResult

namespace Bindings

/-- The arguments of a field with the values of their variables. -/
def resolve (bindings : Bindings) (arguments : List Argument) : List (String × Json) :=
  arguments.filterMap fun argument =>
    (bindings.get? argument.variableName).map fun j => (argument.name, j)

/-- The arguments of a call with the values of the variables that it refers to. -/
def resolveCall (bindings : Bindings) : Option Call → List (String × Json)
  | none => []
  | some call => call.arguments.filterMap fun argument =>
    (argument.2.bareName?.bind bindings.get?).map fun j => (argument.1, j)

end Bindings

namespace Service

variable {Obj : Type u} (service : Service Obj) (bindings : Bindings)

mutual

/-- The answer to a selection. -/
def answer (o : Obj) : Selection → Json
  | .leaf field => service.terminal o field.name (bindings.resolve field.arguments)
  | .nested field selections =>
    (service.nested o field.name (bindings.resolve field.arguments)).toJson fun inner =>
      .object (Keyed.sort (answers inner selections))

/-- The answers to selections, each under the response key of its field. -/
def answers (o : Obj) : List Selection → List (String × Json)
  | [] => []
  | s :: rest => (s.responseKey, answer o s) :: answers o rest

end

/-- The response to a document that is asked of an object. -/
def execute (o : Obj) (selections : List Selection) : Json :=
  .object (Keyed.sort (answers service bindings o selections))

variable (table : ScalarTable)

/-- The value of a scalar, by its descriptor. -/
def scalarValue (descriptor : String) (path : ResultPath) (j : Json) : Except DecodeError Value :=
  match WireType.read descriptor with
  | .ok type => type.decode (table.kindOf type.baseName) path j
  | .error _ => .ok (if j.isNull then .null else .raw j)

/-- The name that the service knows a field by. -/
def fieldName (key : String) (call : Option Call) : String := (call.bind Call.wireName).getD key

mutual

/-- The meaning of a node under its key, at a path. -/
def meaning (o : Obj) (path : ResultPath) (key : String) : Node → Except DecodeError Value
  | .scalar call descriptor =>
    scalarValue table descriptor path
      (service.terminal o (fieldName key call) (bindings.resolveCall call))
  | .group call children =>
    (service.nested o (fieldName key call) (bindings.resolveCall call)).value
      (fun path inner => .object <$> meanings inner path children) path

/-- The meanings of nodes under their keys, in order. -/
def meanings (o : Obj) (path : ResultPath) :
    List (String × Node) → Except DecodeError (List (String × Value))
  | [] => .ok []
  | child :: rest => do
    let first ← meaning o (path ++ [.key child.1]) child.1 child.2
    return (child.1, first) :: (← meanings o path rest)

end

/-- The meaning of a specification that is asked of an object. -/
def interpret (o : Obj) (root : Group) : Except DecodeError Value :=
  .object <$> meanings service bindings table o [] root.children

end Service

end WireQuery
