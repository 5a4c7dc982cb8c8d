import WireQuery.Document.Basic
import WireQuery.Json.Printer

/-!
# Writing documents

A document is written on one line, or with one selection a line and two spaces for each level.
Both forms have the same words in the same order.
-/

namespace WireQuery
set_option autoImplicit false

/-- A list in parentheses, or nothing for an empty one. -/
def parenthesized : List String → String
  | [] => ""
  | parts => "(" ++ ", ".intercalate parts ++ ")"

def Argument.text (a : Argument) : String := a.name ++ ": $" ++ a.variableName

def VariableDefinition.text (v : VariableDefinition) : String :=
  "$" ++ v.name ++ ": " ++ v.type.text

/-- A field with its alias and arguments, without what is selected inside it. -/
def Field.text (field : Field) : String :=
  let label := match field.aliasName with
    | some aliasName => aliasName ++ ": "
    | none => ""
  label ++ field.name ++ parenthesized (field.arguments.map Argument.text)

namespace Selection

mutual

def compact : Selection → String
  | leaf field => field.text
  | nested field selections =>
    field.text ++ " \x7b " ++ " ".intercalate (compactAll selections) ++ " \x7d"

def compactAll : List Selection → List String
  | [] => []
  | s :: rest => s.compact :: compactAll rest

end

def indentation (depth : Nat) : String := String.ofList (List.replicate (2 * depth) ' ')

/-- A line at the given depth. -/
def line (depth : Nat) (content : String) : String := indentation depth ++ content ++ "\n"

mutual

/-- A selection that starts on a line at the given depth. -/
def indented (depth : Nat) : Selection → String
  | leaf field => field.text
  | nested field selections =>
    field.text ++ " \x7b\n" ++ indentedAll (depth + 1) selections ++ indentation depth ++ "\x7d"

/-- Selections on lines of their own. -/
def indentedAll (depth : Nat) : List Selection → String
  | [] => ""
  | s :: rest => line depth (s.indented depth) ++ indentedAll depth rest

end

end Selection

namespace Document

/-- Everything before the selections. -/
def header (document : Document) : String :=
  let name := match document.operationName with
    | some name => " " ++ name
    | none => ""
  "query" ++ name ++ parenthesized (document.definitions.map VariableDefinition.text)

def write (document : Document) : TextStyle → String
  | .compact =>
    document.header ++ " \x7b " ++
      " ".intercalate (Selection.compactAll document.selections) ++ " \x7d"
  | .indented =>
    document.header ++ " \x7b\n" ++ Selection.indentedAll 1 document.selections ++ "\x7d"

/-- The text of a request. -/
def text (document : Document) : String := document.write .compact

end Document

end WireQuery
