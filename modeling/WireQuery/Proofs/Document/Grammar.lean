import WireQuery.Document.Printer
import WireQuery.Proofs.Document.Token
import WireQuery.Proofs.WireType.Form

/-!
# The grammar of documents

The words of a document in their order, whatever stands between them:

* a document is `query`, a name or none, declarations `$name: type` in parentheses or none, and
  selections in braces;
* a selection is an alias with a colon or none, a name, arguments `name: $name` in parentheses or
  none, and selections in braces or none.

Parentheses and braces are never empty.
-/

namespace WireQuery
set_option autoImplicit false

/-- A list in parentheses, or nothing for an empty one. -/
def parenthesizedTokens {α : Type} (tokens : α → List Token) : List α → List Token
  | [] => []
  | item :: rest => .mark .openParen :: (item :: rest).flatMap tokens ++ [.mark .closeParen]

namespace WireType

def tokens : WireType → List Token
  | named name => [.name name]
  | list element => .mark .openBracket :: element.tokens ++ [.mark .closeBracket]
  | nonNull inner => inner.tokens ++ [.mark .bang]

structure WellFormed (t : WireType) : Prop where
  name : Name.isValid t.baseName = true
  canonical : t.Canonical

end WireType

namespace VariableDefinition

def tokens (d : VariableDefinition) : List Token :=
  .mark .dollar :: .name d.name :: .mark .colon :: d.type.tokens

structure WellFormed (d : VariableDefinition) : Prop where
  name : Name.isValid d.name = true
  type : d.type.WellFormed

end VariableDefinition

namespace Argument

def tokens (a : Argument) : List Token :=
  [.name a.name, .mark .colon, .mark .dollar, .name a.variableName]

structure WellFormed (a : Argument) : Prop where
  name : Name.isValid a.name = true
  variableName : Name.isValid a.variableName = true

end Argument

namespace Field

def aliasTokens : Option String → List Token
  | none => []
  | some aliasName => [.name aliasName, .mark .colon]

def tokens (field : Field) : List Token :=
  aliasTokens field.aliasName ++ .name field.name ::
    parenthesizedTokens Argument.tokens field.arguments

structure WellFormed (field : Field) : Prop where
  name : Name.isValid field.name = true
  aliasName : ∀ text, field.aliasName = some text → Name.isValid text = true
  arguments : ∀ a ∈ field.arguments, a.WellFormed

end Field

namespace Selection

mutual

def tokens : Selection → List Token
  | leaf field => field.tokens
  | nested field selections =>
    field.tokens ++ .mark .openBrace :: tokensAll selections ++ [.mark .closeBrace]

def tokensAll : List Selection → List Token
  | [] => []
  | s :: rest => s.tokens ++ tokensAll rest

end

mutual

def WellFormed : Selection → Prop
  | leaf field => field.WellFormed
  | nested field selections => field.WellFormed ∧ selections ≠ [] ∧ AllWellFormed selections

def AllWellFormed : List Selection → Prop
  | [] => True
  | s :: rest => s.WellFormed ∧ AllWellFormed rest

end

@[simp] theorem tokensAll_append (before rest : List Selection) :
    tokensAll (before ++ rest) = tokensAll before ++ tokensAll rest := by
  induction before with
  | nil => rfl
  | cons s before ih => simp [tokensAll, ih]

theorem allWellFormed_append {before rest : List Selection} (hbefore : AllWellFormed before)
    (hrest : AllWellFormed rest) : AllWellFormed (before ++ rest) := by
  induction before with
  | nil => exact hrest
  | cons s before ih => exact ⟨hbefore.1, ih hbefore.2⟩

end Selection

namespace Document

def tokens (document : Document) : List Token :=
  .name "query" :: (document.operationName.map Token.name).toList ++
    parenthesizedTokens VariableDefinition.tokens document.definitions ++
    .mark .openBrace :: Selection.tokensAll document.selections ++ [.mark .closeBrace]

structure WellFormed (document : Document) : Prop where
  operationName : ∀ text, document.operationName = some text → Name.isValid text = true
  definitions : ∀ d ∈ document.definitions, d.WellFormed
  populated : document.selections ≠ []
  selections : Selection.AllWellFormed document.selections

end Document

end WireQuery
