import WireQuery.Proofs.TypeScript.Token

/-!
# Reading TypeScript declarations

Interfaces and generic aliases with one parameter, with the types that such declarations are made
of. Brackets behind a type bind tighter than `|`. A reader takes a type from the front of a list of
tokens and leaves the rest; it takes at most as many steps as there are tokens.
-/

namespace WireQuery.TypeScript
set_option autoImplicit false

inductive Ty where
  | string
  | number
  | boolean
  | unknown
  | null
  | reference (name : String)
  /-- A generic alias with its argument. -/
  | applied (name : String) (argument : Ty)
  | array (element : Ty)
  | union (left right : Ty)
  deriving DecidableEq, Repr

structure Member where
  key : String
  /-- Whether the member may be absent. -/
  optional : Bool
  ty : Ty
  deriving DecidableEq, Repr

inductive Declaration where
  | interface (name : String) (members : List Member)
  | typeAlias (name parameter : String) (body : Ty)
  deriving DecidableEq, Repr

def Declaration.name : Declaration → String
  | interface name _ => name
  | typeAlias name _ _ => name

/-- Takes something from the front of a list of tokens. -/
abbrev Reader (α : Type) := List Token → Option (α × List Token)

/-- The type that a keyword stands for. -/
def keywordType? (text : String) : Option Ty :=
  if text = "string" then some .string
  else if text = "number" then some .number
  else if text = "boolean" then some .boolean
  else if text = "unknown" then some .unknown
  else if text = "null" then some .null
  else none

/-- A declared type after its name, with an argument if there is one. -/
def readReference (inner : Reader Ty) (name : String) : Reader Ty
  | .mark '<' :: rest =>
    match inner rest with
    | some (argument, .mark '>' :: rest) => some (.applied name argument, rest)
    | _ => none
  | rest => some (.reference name, rest)

/-- A type without brackets behind it: a keyword, a declared type, or any type in parentheses. -/
def readPrimary (inner : Reader Ty) : Reader Ty
  | .word text :: rest =>
    match keywordType? text with
    | some ty => some (ty, rest)
    | none => if isTypeName text then readReference inner text rest else none
  | .mark '(' :: rest =>
    match inner rest with
    | some (ty, .mark ')' :: rest) => some (ty, rest)
    | _ => none
  | _ => none

/-- The array types that the brackets behind a type make of it. -/
def readBrackets (ty : Ty) : List Token → Ty × List Token
  | .mark '[' :: .mark ']' :: rest => readBrackets (.array ty) rest
  | rest => (ty, rest)

/-- One alternative of a union. -/
def readOperand (inner : Reader Ty) : Reader Ty := fun tokens => do
  let (ty, rest) ← readPrimary inner tokens
  return readBrackets ty rest

/-- A type with all its alternatives. -/
def readType : (steps : Nat) → Reader Ty
  | 0, _ => none
  | steps + 1, tokens => do
    match ← readOperand (readType steps) tokens with
    | (ty, .mark '|' :: rest) =>
      let (other, rest) ← readType steps rest
      return (.union ty other, rest)
    | (ty, rest) => return (ty, rest)

section
variable {inner : Reader Ty} {ty : Ty} {name : String} {tokens rest : List Token}

theorem keywordType?_eq_none (h : isTypeName name = true) : keywordType? name = none := by
  have hkeyword := not_mem_keywords h
  unfold keywordType?
  repeat rw [if_neg (by rintro rfl; exact hkeyword (by decide))]

theorem readPrimary_word (h : isTypeName name = true) (rest : List Token) :
    readPrimary inner (.word name :: rest) = readReference inner name rest := by
  simp only [readPrimary, keywordType?_eq_none h, h, if_true]

theorem readPrimary_paren (h : inner tokens = some (ty, .mark ')' :: rest)) :
    readPrimary inner (.mark '(' :: tokens) = some (ty, rest) := by
  simp only [readPrimary, h]

theorem readReference_applied (h : inner tokens = some (ty, .mark '>' :: rest)) :
    readReference inner name (.mark '<' :: tokens) = some (.applied name ty, rest) := by
  simp only [readReference, h]

theorem readType_reference (h : isTypeName name = true) {c : Char}
    (hc : c = '>' ∨ c = ';' ∨ c = ')') (steps : Nat) (rest : List Token) :
    readType (steps + 1) (.word name :: .mark c :: rest) =
      some (.reference name, .mark c :: rest) := by
  rw [readType, readOperand, readPrimary_word h]
  rcases hc with rfl | rfl | rfl <;> rfl

end

/-- A type up to the semicolon behind it. -/
def readStatement (steps : Nat) : Reader Ty := fun tokens =>
  match readType steps tokens with
  | some (ty, .mark ';' :: rest) => some (ty, rest)
  | _ => none

/-- What stands behind the key of a member. -/
def readSignature (steps : Nat) (key : String) : Reader Member
  | .mark '?' :: .mark ':' :: rest => do
    let (ty, rest) ← readStatement steps rest
    return (⟨key, true, ty⟩, rest)
  | .mark ':' :: rest => do
    let (ty, rest) ← readStatement steps rest
    return (⟨key, false, ty⟩, rest)
  | _ => none

/-- A member. `readonly` before another word is no key, and does not restrict the values. -/
def readMember (steps : Nat) : Reader Member
  | .word "readonly" :: .word key :: rest =>
    if isIdentifier key then readSignature steps key rest else none
  | .word key :: rest => if isIdentifier key then readSignature steps key rest else none
  | _ => none

/-- The members up to the closing brace. -/
def readMembers : (steps : Nat) → Reader (List Member)
  | 0, _ => none
  | _ + 1, .mark '\x7d' :: rest => some ([], rest)
  | steps + 1, tokens => do
    let (member, rest) ← readMember steps tokens
    let (members, rest) ← readMembers steps rest
    return (member :: members, rest)

/-- A declaration without what may stand before it. -/
def readDeclared (steps : Nat) : Reader Declaration
  | .word "interface" :: .word name :: .mark '\x7b' :: rest =>
    if isTypeName name then do
      let (members, rest) ← readMembers steps rest
      return (.interface name members, rest)
    else none
  | .word "type" :: .word name :: .mark '<' :: .word parameter :: .mark '>' :: .mark '=' :: rest =>
    if isTypeName name && isTypeName parameter then do
      let (body, rest) ← readStatement steps rest
      return (.typeAlias name parameter body, rest)
    else none
  | _ => none

def readDeclaration (steps : Nat) : Reader Declaration
  | .word "export" :: rest => readDeclared steps rest
  | rest => readDeclared steps rest

def readDeclarations : (steps : Nat) → List Token → Option (List Declaration)
  | _, [] => some []
  | 0, _ :: _ => none
  | steps + 1, tokens => do
    let (declaration, rest) ← readDeclaration steps tokens
    return declaration :: (← readDeclarations steps rest)

/-- The declarations that a text consists of. -/
def read (text : String) : Option (List Declaration) := do
  let tokens ← scanner.readAll text
  readDeclarations tokens.length tokens

end WireQuery.TypeScript
