import WireQuery.Document.Basic
import WireQuery.Json.Reader
import WireQuery.Scalar.Table

/-!
# Variable bindings

The bindings of a run name exactly the variables that the document declares, and each value fits
its declared type. Bindings have their names ascending, so of several names that are not declared
the least one is reported.
-/

namespace WireQuery
set_option autoImplicit false

/-- Bare variable names with their values, by ascending name. -/
structure Bindings where
  entries : List (String × Json)
  ascending : Keyed.Ascending entries
  deriving Repr

namespace Bindings

def empty : Bindings := ⟨[], List.Pairwise.nil⟩

/-- The bindings that the members of an object give; the last of several for a name stays. -/
def ofMembers (members : List (String × Json)) : Bindings :=
  ⟨Keyed.sort members, Keyed.ascending_sort members⟩

/-- The bindings that the object in a text gives. -/
def read (text : String) : Except Json.Error Bindings := ofMembers <$> Json.readObject text

def get? (bindings : Bindings) (name : String) : Option Json := bindings.entries.lookup name

end Bindings

inductive BindingError where
  | missingVariable (name : String)
  | unexpectedVariable (name : String)
  /-- A value that does not fit; the kind is that of its first part that does not. -/
  | typeMismatch (name : String) (expected : WireType) (found : Json.Kind)
  deriving DecidableEq, Repr

def BindingError.message : BindingError → String
  | missingVariable name => "missing binding for variable `$" ++ name ++ "`"
  | unexpectedVariable name => "variable `$" ++ name ++ "` is not declared by the query"
  | typeMismatch name expected found =>
    "variable `$" ++ name ++ "` expects `" ++ expected.text ++ "`, found " ++ found.text

namespace WireType

/-- The kind of the first part of a value that does not fit the type. -/
def misfit? (table : ScalarTable) : WireType → Json → Option Json.Kind
  | named name, j => if j.isNull || (table.kindOf name).accepts j then none else some j.kind
  | list element, j =>
    match j with
    | .null => none
    | .array items => items.findSome? (element.misfit? table)
    | _ => some j.kind
  | nonNull inner, j => if j.isNull then some .null else inner.misfit? table j

end WireType

namespace VariableDefinition

def checkBinding (table : ScalarTable) (bindings : Bindings) (v : VariableDefinition) :
    Except BindingError Unit :=
  match bindings.get? v.name with
  | none => .error (.missingVariable v.name)
  | some j =>
    match v.type.misfit? table j with
    | none => .ok ()
    | some found => .error (.typeMismatch v.name v.type found)

end VariableDefinition

namespace Document

/-- The variables are checked in the order of their declarations, then the other names. -/
def checkBindings (document : Document) (table : ScalarTable) (bindings : Bindings) :
    Except BindingError Unit := do
  document.definitions.forM (VariableDefinition.checkBinding table bindings)
  match bindings.entries.find? (fun binding => (document.definition? binding.1).isNone) with
  | none => return ()
  | some binding => .error (.unexpectedVariable binding.1)

end Document

end WireQuery
