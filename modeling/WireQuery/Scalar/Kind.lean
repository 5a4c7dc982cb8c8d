import WireQuery.Json.Basic

/-!
# Scalar kinds

What a named scalar type holds at run time. `unknown` is the kind of every type that nothing is
known about; its values pass through untouched.
-/

namespace WireQuery
set_option autoImplicit false

inductive ScalarKind where
  | text
  | integer
  | number
  | boolean
  | unknown
  deriving DecidableEq, Repr

namespace ScalarKind

def all : List ScalarKind := [text, integer, number, boolean, unknown]

def name : ScalarKind → String
  | text => "text"
  | integer => "integer"
  | number => "number"
  | boolean => "boolean"
  | unknown => "opaque"

def ofName? (s : String) : Option ScalarKind := all.find? (fun kind => kind.name == s)

/-- Whether a value that is not null fits the kind. Integers have to fit a signed 64-bit word. -/
def accepts : ScalarKind → Json → Bool
  | text, .string _ => true
  | integer, .number (.integer n) => n.toInt64?.isSome
  | number, .number _ => true
  | boolean, .bool _ => true
  | unknown, _ => true
  | _, _ => false

@[simp] theorem ofName?_name (kind : ScalarKind) : ofName? kind.name = some kind := by
  cases kind <;> decide

end ScalarKind

end WireQuery
