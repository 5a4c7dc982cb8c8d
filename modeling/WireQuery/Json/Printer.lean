import WireQuery.Json.Basic
import WireQuery.Number.Layout

/-!
# Writing JSON

Two forms: compact text has no blanks, indented text has one item or member a line and two spaces
for each level. Members keep their order.
-/

namespace WireQuery
set_option autoImplicit false

/-- The two written forms of documents and of JSON, one without line breaks and one for readers. -/
inductive TextStyle where
  | compact
  | indented
  deriving DecidableEq, Repr

namespace Json

/-- Floats with a scientific exponent from -5 to 15 have a point among their digits and at least
one digit after it; all others have a signed exponent. -/
def floatLayout : NumberLayout where
  leastPositional := -5
  greatestPositional := 15
  wholeTail := ".0"
  plusSign := "+"

def Number.text : Number → String
  | .integer n => n.value.repr
  | .float x => floatLayout.write x.shortest

/-- A hexadecimal digit in small letters. -/
def hexDigit (n : Nat) : Char := Nat.digitChar (n % 16)

/-- A character of a string: quotes, backslashes and control characters are escaped. -/
def escape (c : Char) : List Char :=
  if c = '"' then ['\\', '"']
  else if c = '\\' then ['\\', '\\']
  else if c = '\x08' then ['\\', 'b']
  else if c = '\x0c' then ['\\', 'f']
  else if c = '\n' then ['\\', 'n']
  else if c = '\r' then ['\\', 'r']
  else if c = '\t' then ['\\', 't']
  else if c.toNat < 0x20 then
    ['\\', 'u', '0', '0', hexDigit (c.toNat / 16), hexDigit c.toNat]
  else [c]

def quote (s : String) : String := String.ofList ('"' :: s.toList.flatMap escape ++ ['"'])

mutual

def compact : Json → String
  | .null => "null"
  | .bool b => if b then "true" else "false"
  | .number n => n.text
  | .string s => quote s
  | .array items => "[" ++ ",".intercalate (compactItems items) ++ "]"
  | .object members => "\x7b" ++ ",".intercalate (compactMembers members) ++ "\x7d"

def compactItems : List Json → List String
  | [] => []
  | item :: rest => item.compact :: compactItems rest

def compactMembers : List (String × Json) → List String
  | [] => []
  | member :: rest => (quote member.1 ++ ":" ++ member.2.compact) :: compactMembers rest

end

/-- The line break before something `depth` levels inside. -/
def newLine (depth : Nat) : String := String.ofList ('\n' :: List.replicate (2 * depth) ' ')

/-- The parts on lines of their own, one level inside `depth`, between two brackets. -/
def block (opening closing : String) (depth : Nat) : List String → String
  | [] => opening ++ closing
  | parts =>
    let line := newLine (depth + 1)
    opening ++ line ++ ("," ++ line).intercalate parts ++ newLine depth ++ closing

mutual

/-- Indented text of a value `depth` levels inside. -/
def indented (depth : Nat) : Json → String
  | .null => "null"
  | .bool b => if b then "true" else "false"
  | .number n => n.text
  | .string s => quote s
  | .array items => block "[" "]" depth (indentedItems (depth + 1) items)
  | .object members => block "\x7b" "\x7d" depth (indentedMembers (depth + 1) members)

def indentedItems (depth : Nat) : List Json → List String
  | [] => []
  | item :: rest => item.indented depth :: indentedItems depth rest

def indentedMembers (depth : Nat) : List (String × Json) → List String
  | [] => []
  | member :: rest =>
    (quote member.1 ++ ": " ++ member.2.indented depth) :: indentedMembers depth rest

end

def write (j : Json) : TextStyle → String
  | .compact => j.compact
  | .indented => j.indented 0

end Json

end WireQuery
