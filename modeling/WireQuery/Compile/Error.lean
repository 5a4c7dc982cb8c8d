import WireQuery.WireType.Reader

/-!
# Refused specifications
-/

namespace WireQuery
set_option autoImplicit false

/-- What a name names. -/
inductive NameRole where
  | operation
  | field
  | wireField
  | argument
  | variable
  deriving DecidableEq, Repr

def NameRole.text : NameRole → String
  | operation => "operation"
  | field => "field"
  | wireField => "wire field"
  | argument => "argument"
  | .variable => "variable"

inductive CompileError where
  /-- A variable's descriptor is no type. -/
  | malformedType (malformed : WireType.Malformed)
  /-- A variable is used with two descriptors. -/
  | typeConflict (name first second : String)
  /-- A reference lacks the sigil `$`. -/
  | missingSigil (written : String)
  | invalidName (role : NameRole) (name : String)
  /-- A group without children, by the keys that lead to it. -/
  | emptySelection (path : List String)
  deriving DecidableEq, Repr

namespace CompileError

/-- The keys that lead to a group, or a name for the root. -/
def pathText : List String → String
  | [] => "query root"
  | path => "`" ++ ".".intercalate path ++ "`"

def message : CompileError → String
  | malformedType malformed => malformed.message
  | typeConflict name first second =>
    "variable `$" ++ name ++ "` declared as both `" ++ first ++ "` and `" ++ second ++ "`"
  | missingSigil written => "variable reference `" ++ written ++ "` is missing the `$` sigil"
  | invalidName role name => "invalid " ++ role.text ++ " name `" ++ name ++ "`"
  | emptySelection path => "empty selection set at " ++ pathText path

end CompileError

end WireQuery
