import WireQuery.Json.Printer
import WireQuery.Text.Quoted

/-!
# Refused JSON texts

A text is refused because it is no JSON, because it ends too early, or because a value has another
form than its place asks for.
-/

namespace WireQuery.Json
set_option autoImplicit false

/-- What is wrong with a text that is no JSON. -/
inductive TextDefect where
  | endInValue
  | endInString
  | endInObject
  | endInList
  | expectedValue
  | expectedWord
  | expectedKey
  | expectedColon
  | expectedMemberEnd
  | expectedItemEnd
  | trailingComma
  | trailingCharacters
  | invalidNumber
  | numberOutOfRange
  | controlCharacter
  | invalidEscape
  | unpairedEscape
  | loneSurrogate
  | nestedTooDeeply
  deriving DecidableEq, Repr

/-- What stands where another form was expected. -/
inductive Found where
  | null
  | bool (value : Bool)
  | number (value : Number)
  | string (value : String)
  | sequence
  | map
  deriving DecidableEq, Repr

inductive Error where
  /-- The text is no JSON. -/
  | text (defect : TextDefect)
  /-- A value of another form than expected. -/
  | wrongForm (found : Found) (expected : String)
  /-- A word that is none of the known ones. -/
  | unknownWord (word : String) (known : List String)
  /-- A value that has none of the forms of a specification node. -/
  | notANode
  deriving DecidableEq, Repr

/-- The classes of errors: the text ends too early, is no JSON, or says something unfit. -/
inductive Error.Category where
  | unfinished
  | malformed
  | unfit
  deriving DecidableEq, Repr

def Error.Category.text : Error.Category → String
  | unfinished => "eof"
  | malformed => "syntax"
  | unfit => "data"

def Error.category : Error → Error.Category
  | .text .endInValue | .text .endInString | .text .endInObject | .text .endInList => .unfinished
  | .text _ => .malformed
  | .wrongForm _ _ | .unknownWord _ _ | .notANode => .unfit

def TextDefect.message : TextDefect → String
  | endInValue => "EOF while parsing a value"
  | endInString => "EOF while parsing a string"
  | endInObject => "EOF while parsing an object"
  | endInList => "EOF while parsing a list"
  | expectedValue => "expected value"
  | expectedWord => "expected ident"
  | expectedKey => "key must be a string"
  | expectedColon => "expected `:`"
  | expectedMemberEnd => "expected `,` or `\x7d`"
  | expectedItemEnd => "expected `,` or `]`"
  | trailingComma => "trailing comma"
  | trailingCharacters => "trailing characters"
  | invalidNumber => "invalid number"
  | numberOutOfRange => "number out of range"
  | controlCharacter => "control character (\\u0000-\\u001F) found while parsing a string"
  | invalidEscape => "invalid escape"
  | unpairedEscape => "unexpected end of hex escape"
  | loneSurrogate => "lone leading surrogate in hex escape"
  | nestedTooDeeply => "recursion limit exceeded"

def Found.text : Found → String
  | null => "null"
  | bool b => "boolean `" ++ (if b then "true" else "false") ++ "`"
  | number (.integer n) => "integer `" ++ (Number.integer n).text ++ "`"
  | number (.float x) => "floating point `" ++ (Number.float x).text ++ "`"
  | string s => "string " ++ Text.quoted s
  | sequence => "sequence"
  | map => "map"

def Error.message : Error → String
  | .text defect => defect.message
  | .wrongForm found expected => "invalid type: " ++ found.text ++ ", expected " ++ expected
  | .unknownWord word known =>
    "unknown variant `" ++ word ++ "`, expected one of " ++
      ", ".intercalate (known.map fun k => "`" ++ k ++ "`")
  | .notANode => "data did not match any variant of untagged enum RawNode"

end WireQuery.Json
