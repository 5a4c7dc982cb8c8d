/-!
# TypeScript declarations

The types, members and declarations that are written for a query, their text under the choices of
the caller, and how a declaration gets a name that no other has: a name that is taken gets the least
number from two on that makes it free.
-/

namespace WireQuery.Typings
set_option autoImplicit false

/-- How a result member that may be null is declared. -/
inductive Optionality where
  /-- As `name: T | null`. -/
  | null
  /-- As `name?: T | null`. -/
  | questionMark
  deriving DecidableEq, Repr

structure Choices where
  /-- Whether the declarations are exported. -/
  exported : Bool := true
  /-- The name of the result interface, by default that of the operation. -/
  rootName : Option String := none
  /-- The name of the variables interface, by default that of the result with an ending. -/
  variablesName : Option String := none
  optional : Optionality := .null
  /-- Whether members are read-only. -/
  readOnly : Bool := false
  deriving Repr

inductive Ty where
  | string
  | number
  | boolean
  | unknown
  | array (element : Ty)
  | orNull (ty : Ty)
  /-- A nested level, given by its interface behind the alias that admits lists and null. -/
  | nested (aliasName interface : String)
  deriving DecidableEq, Repr

/-- The text of a type. A union is put in parentheses inside an array, where it would bind less. -/
def Ty.text : Ty → String
  | string => "string"
  | number => "number"
  | boolean => "boolean"
  | unknown => "unknown"
  | array (orNull ty) => "(" ++ ty.text ++ " | null)[]"
  | array element => element.text ++ "[]"
  | orNull ty => ty.text ++ " | null"
  | nested aliasName interface => aliasName ++ "<" ++ interface ++ ">"

structure Member where
  key : String
  ty : Ty
  /-- Whether the member may be absent. -/
  optional : Bool
  deriving DecidableEq, Repr

inductive Declaration where
  | interface (name : String) (members : List Member)
  /-- A generic alias for a value, a list of such, or null. -/
  | nestedAlias (name : String)
  deriving DecidableEq, Repr

namespace Declaration

def name : Declaration → String
  | interface name _ => name
  | nestedAlias name => name

def memberLine (choices : Choices) (member : Member) : String :=
  "  " ++ (if choices.readOnly then "readonly " else "") ++ member.key ++
    (if member.optional then "?" else "") ++ ": " ++ member.ty.text ++ ";\n"

def text (choices : Choices) (declaration : Declaration) : String :=
  (if choices.exported then "export " else "") ++
    match declaration with
    | interface name members =>
      let lines := String.join (members.map (memberLine choices))
      "interface " ++ name ++ " \x7b\n" ++ lines ++ "\x7d\n"
    | nestedAlias name =>
      "type " ++ name ++ "<T> = T | " ++ name ++ "<T>[] | null;\n"

/-- Declarations with a blank line between them. -/
def textOfAll (choices : Choices) (declarations : List Declaration) : String :=
  "\n".intercalate (declarations.map (text choices))

end Declaration

/-- The candidates after `base` itself, `base2` first. -/
def numberedNames (base : String) (count : Nat) : List String :=
  (List.range count).map fun k => base ++ (k + 2).repr

/-- The name for `base` beside the names in use. Among one more candidates than there are names in
use, at least one is free. -/
def freshName (used : List String) (base : String) : String :=
  if used.contains base then
    ((numberedNames base (used.length + 1)).find? (fun name => !used.contains name)).getD base
  else base

end WireQuery.Typings
