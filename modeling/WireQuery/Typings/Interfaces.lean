import WireQuery.Compile.Basic
import WireQuery.PascalCase
import WireQuery.Typings.Declaration

/-!
# TypeScript declarations of a query

A query gets one interface for its variables if it has any, an alias for nested levels if it has
any, and one interface for each level of its result, inner levels first. Names follow the keys
that lead to a level, and no name is given twice.
-/

namespace WireQuery.Typings
set_option autoImplicit false

def ofKind : ScalarKind → Ty
  | .text => .string
  | .integer | .number => .number
  | .boolean => .boolean
  | .unknown => .unknown

/-- The type of a value that is there. Items of a list may be null unless their type forbids it. -/
def ofPresent (kind : ScalarKind) : WireType → Ty
  | .named _ => ofKind kind
  | .nonNull inner => ofPresent kind inner
  | .list (.nonNull element) => .array (ofPresent kind element)
  | .list element => .array (.orNull (ofPresent kind element))

/-- The type of a value, which may be null unless its type forbids it. -/
def ofType (kind : ScalarKind) (type : WireType) : Ty :=
  if type.isNonNull then ofPresent kind type else .orNull (ofPresent kind type)

/-- Every declared variable has to be bound, so no member is optional. -/
def variableMember (table : ScalarTable) (v : VariableDefinition) : Member :=
  ⟨v.name, ofType (table.kindOf v.type.baseName) v.type, false⟩

/-- A scalar of a result. Without a type it may be anything, null included. -/
def leafMember (choices : Choices) (key : String) : Leaf → Member
  | .typed type kind =>
    ⟨key, ofType kind type, !type.isNonNull && choices.optional == .questionMark⟩
  | .untyped _ => ⟨key, .unknown, false⟩

/-- What has been declared for a part of a shape: the levels inside it, its members, and all names
in use after that. -/
structure Declared where
  levels : List Declaration
  members : List Member
  used : List String

mutual

/-- Declares what stands under a key of the level `parent`. -/
def declareContent (choices : Choices) (aliasName parent key : String) (used : List String) :
    Content → Declared
  | .leaf leaf => ⟨[], [leafMember choices key leaf], used⟩
  | .nested slots =>
    let name := freshName used (parent ++ pascalCase key)
    let inner := declareSlots choices aliasName name (name :: used) slots
    { levels := inner.levels ++ [.interface name inner.members]
      members := [⟨key, .nested aliasName name, false⟩]
      used := inner.used }

def declareSlots (choices : Choices) (aliasName parent : String) (used : List String) :
    List (Slot Content) → Declared
  | [] => ⟨[], [], used⟩
  | slot :: rest =>
    let first := declareContent choices aliasName parent slot.key used slot.content
    let others := declareSlots choices aliasName parent first.used rest
    ⟨first.levels ++ others.levels, first.members ++ others.members, others.used⟩

end

/-- The name of the result interface. -/
def rootName (query : Query) (choices : Choices) : String :=
  pascalCase ((choices.rootName <|> query.operationName).getD "Query")

/-- The declarations of a query, in the order in which they are written. -/
def declarations (query : Query) (choices : Choices) : List Declaration :=
  let root := rootName query choices
  let used := [root]
  let definitions := query.document.definitions
  let (variablesPart, used) :=
    if definitions.isEmpty then ([], used)
    else
      let name := freshName used (choices.variablesName.getD (root ++ "Variables"))
      ([.interface name (definitions.map (variableMember query.table))], name :: used)
  let aliasName := freshName used "Nested"
  let (aliasPart, used) :=
    if query.shape.any (fun slot => slot.content.isNested) then
      ([.nestedAlias aliasName], aliasName :: used)
    else ([], used)
  let levels := declareSlots choices aliasName root used query.shape
  variablesPart ++ aliasPart ++ levels.levels ++ [.interface root levels.members]

end WireQuery.Typings

namespace WireQuery.Query

/-- The TypeScript text for a query. -/
def typings (query : Query) (choices : Typings.Choices) : String :=
  Typings.Declaration.textOfAll choices (Typings.declarations query choices)

end WireQuery.Query
