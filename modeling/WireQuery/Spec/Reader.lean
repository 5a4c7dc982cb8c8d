import WireQuery.Json.Reader
import WireQuery.Spec.Basic

/-!
# Reading specifications

The JSON form of a node is tried in this order. A string is a scalar. An object whose one member
is named `$op` is an operation if that member is well formed; it holds `field`, `args` and `body`.
Any other object whose members are all nodes is a group. An array of one element stands for the
object of an operation, and an array of three for what its member holds.
-/

namespace WireQuery
set_option autoImplicit false

namespace Node

open Json

/-- The name of the member that marks an operation. -/
def operationKey : String := "$op"

def fieldOfJson? : Json → Option (Option String)
  | .null => some none
  | .string name => some (some name)
  | _ => none

/-- A reference is written as the pair of its name and its type. -/
def referenceOfJson? : Json → Option VariableRef
  | .array [.string written, .string descriptor] => some ⟨written, descriptor⟩
  | _ => none

def argumentsOfMembers? : List (String × Json) → Option (List (String × VariableRef))
  | [] => some []
  | member :: rest => do
    let reference ← referenceOfJson? member.2
    return (member.1, reference) :: (← argumentsOfMembers? rest)

def argumentsOfJson? : Json → Option (List (String × VariableRef))
  | .object members => argumentsOfMembers? members
  | _ => none

/-- The parts of an operation that have been read. -/
structure Parts where
  field : Option (Option String)
  arguments : Option (List (String × VariableRef))
  body : Option Node

/-- The operation that the parts make up. Only the body is required. -/
def Parts.node? (parts : Parts) : Option Node := do
  let body ← parts.body
  return body.called (.ofList (parts.field.getD none) (parts.arguments.getD []))

mutual

def ofJson? : Json → Option Node
  | .string descriptor => some (scalar none descriptor)
  | .array [payload] => operationOfJson? payload
  | .object members =>
    match operationOfMembers? members with
    | some node => some node
    | none => (fun children => group none (Keyed.ofList children)) <$> childrenOfMembers? members
  | _ => none

/-- An operation, if its mark is the only member. -/
def operationOfMembers? : List (String × Json) → Option Node
  | [member] => if member.1 = operationKey then operationOfJson? member.2 else none
  | _ => none

/-- What the mark of an operation holds: its parts by name, or all three in order. -/
def operationOfJson? : Json → Option Node
  | .object members => operationOfParts? ⟨none, none, none⟩ members
  | .array [field, arguments, body] => do
    let field ← fieldOfJson? field
    let arguments ← argumentsOfJson? arguments
    let body ← bodyOfJson? body
    return body.called (.ofList field arguments)
  | _ => none

/-- An operation from its members; each part is given once at most, and nothing else is given. -/
def operationOfParts? (parts : Parts) : List (String × Json) → Option Node
  | [] => parts.node?
  | member :: rest =>
    if member.1 = "field" ∧ parts.field.isNone then
      match fieldOfJson? member.2 with
      | some field => operationOfParts? { parts with field := some field } rest
      | none => none
    else if member.1 = "args" ∧ parts.arguments.isNone then
      match argumentsOfJson? member.2 with
      | some arguments => operationOfParts? { parts with arguments := some arguments } rest
      | none => none
    else if member.1 = "body" ∧ parts.body.isNone then
      match bodyOfJson? member.2 with
      | some body => operationOfParts? { parts with body := some body } rest
      | none => none
    else none

/-- What an operation selects. An object is always a group here. -/
def bodyOfJson? : Json → Option Node
  | .string descriptor => some (scalar none descriptor)
  | .object members =>
    (fun children => group none (Keyed.ofList children)) <$> childrenOfMembers? members
  | _ => none

def childrenOfMembers? : List (String × Json) → Option (List (String × Node))
  | [] => some []
  | member :: rest =>
    match ofJson? member.2, childrenOfMembers? rest with
    | some node, some children => some ((member.1, node) :: children)
    | _, _ => none

end

/-- A node as a member of the root. -/
def read (size : Nat) : Reader Node := fun cs => do
  let (j, rest) ← readValue size (maxNesting - 1) cs
  match ofJson? j with
  | some node => return (node, rest)
  | none => .error .notANode

end Node

/-- The specification that a text spells. Its root is always a group. -/
def Group.read (text : String) : Except Json.Error Group := do
  let children ← Json.readText (fun size => Json.readMap size (Node.read size)) text
  return .ofList children

end WireQuery
