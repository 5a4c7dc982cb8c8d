/-!
# Wire types

A type is a named type with list and non-null modifiers around it. Its text puts brackets around
a list's element and `!` after a non-null type, as in `[ID!]!`.
-/

namespace WireQuery
set_option autoImplicit false

inductive WireType where
  | named (name : String)
  | list (element : WireType)
  | nonNull (inner : WireType)
  deriving DecidableEq, Repr

namespace WireType

def text : WireType → String
  | named name => name
  | list element => "[" ++ element.text ++ "]"
  | nonNull inner => inner.text ++ "!"

/-- The non-null form; a type that is non-null already stays as it is. -/
def required : WireType → WireType
  | nonNull inner => nonNull inner
  | named name => nonNull (named name)
  | list element => nonNull (list element)

def isNonNull : WireType → Bool
  | nonNull _ => true
  | named _ | list _ => false

/-- The type without an outer non-null modifier. -/
def nullable : WireType → WireType
  | nonNull inner => inner
  | named name => named name
  | list element => list element

/-- The innermost named type. -/
def baseName : WireType → String
  | named name => name
  | list element => element.baseName
  | nonNull inner => inner.baseName

@[simp] theorem isNonNull_required (t : WireType) : t.required.isNonNull = true := by
  cases t <;> rfl

@[simp] theorem required_required (t : WireType) : t.required.required = t.required := by
  cases t <;> rfl

@[simp] theorem baseName_nullable (t : WireType) : t.nullable.baseName = t.baseName := by
  cases t <;> rfl

end WireType

end WireQuery
