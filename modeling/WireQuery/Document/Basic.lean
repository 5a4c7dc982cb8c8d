import WireQuery.WireType.Basic

/-!
# Query documents

What goes over the wire: one operation with its variables and a tree of selections. A selected
field comes back under its response key, which is the alias if it has one.
-/

namespace WireQuery
set_option autoImplicit false

/-- A declared variable, by its bare name. -/
structure VariableDefinition where
  name : String
  type : WireType
  deriving DecidableEq, Repr

/-- An argument that is given by a variable, by its bare name. -/
structure Argument where
  name : String
  variableName : String
  deriving DecidableEq, Repr

/-- A field as it is asked for. -/
structure Field where
  name : String
  aliasName : Option String
  arguments : List Argument
  deriving DecidableEq, Repr

/-- The key under which the service answers. -/
def Field.responseKey (field : Field) : String := field.aliasName.getD field.name

inductive Selection where
  | leaf (field : Field)
  | nested (field : Field) (selections : List Selection)
  deriving Repr, BEq

namespace Selection

def field : Selection → Field
  | leaf field => field
  | nested field _ => field

/-- The selections inside a field, if the field is not terminal. -/
def selections? : Selection → Option (List Selection)
  | leaf _ => none
  | nested _ selections => some selections

def responseKey (s : Selection) : String := s.field.responseKey

end Selection

structure Document where
  operationName : Option String
  definitions : List VariableDefinition
  selections : List Selection
  deriving Repr, BEq

namespace Document

/-- The declaration of a variable, by its bare name. -/
def definition? (document : Document) (name : String) : Option VariableDefinition :=
  document.definitions.find? (fun v => v.name == name)

end Document

end WireQuery
