import WireQuery.Proofs.Compile.Met
import WireQuery.Proofs.PascalCase
import WireQuery.Proofs.Result.PathText
import WireQuery.Proofs.Typings.Names

/-!
# Declarations whose names are names

Every declaration is named after the result interface, with keys and numbers behind it, or has a
fixed or chosen name. So all of them are names if that of the result interface is one. This is not
so for every operation: in Pascal case `_` becomes nothing, and `_1` becomes a digit.
-/

namespace WireQuery
set_option autoImplicit false

theorem Name.isValid_append {a b : String} (ha : isValid a = true)
    (hb : ∀ c ∈ b.toList, isPart c = true) : isValid (a ++ b) = true := by
  unfold isValid at ha ⊢
  rw [String.toList_append]
  obtain ⟨hhead, hparts⟩ := isValidChars_iff.mp ha
  refine isValidChars_iff.mpr ⟨?_, List.forall_mem_append.mpr ⟨hparts, hb⟩⟩
  rw [List.head?_append_of_ne_nil _ (ne_nil_of_isValidChars ha)]
  exact hhead

namespace Typings

theorem freshName_eq (used : List String) (base : String) :
    freshName used base = base ∨ ∃ k : Nat, freshName used base = base ++ k.repr := by
  unfold freshName
  split
  · cases hfind : (numberedNames base (used.length + 1)).find? fun name => !used.contains name with
    | none => exact Or.inl rfl
    | some name =>
      obtain ⟨k, -, rfl⟩ := List.mem_map.mp (List.mem_of_find?_eq_some hfind)
      exact Or.inr ⟨k + 2, rfl⟩
  · exact Or.inl rfl

theorem isValid_freshName {base : String} (h : Name.isValid base = true) (used : List String) :
    Name.isValid (freshName used base) = true := by
  rcases freshName_eq used base with heq | ⟨k, heq⟩
  · rw [heq]
    exact h
  · rw [heq]
    exact Name.isValid_append h fun _ => ResultPath.isPart_of_mem_repr

/-- The name of a level, made of that of its parent and of its key. -/
theorem isValid_levelName {parent key : String} (hparent : Name.isValid parent = true)
    (hkey : Name.isValid key = true) (used : List String) :
    Name.isValid (freshName used (parent ++ pascalCase key)) = true := by
  apply isValid_freshName
  apply Name.isValid_append hparent
  exact isPart_of_mem_pascalCase fun _ => Name.isPart_of_mem hkey

section
variable (table : ScalarTable) (choices : Choices) (aliasName : String)

open Requirement in
mutual

theorem isValid_declareContent (path : List String) {parent key : String}
    (hparent : Name.isValid parent = true) (hkey : Name.isValid key = true) :
    ∀ (node : Node) (used : List String), Met (ofNode path key node) →
      ∀ level ∈ (declareContent choices aliasName parent key used (node.content table)).levels,
        Name.isValid level.name = true
  | .scalar call descriptor, used, _ => nofun
  | .group call children, used, met => by
    have hname := isValid_levelName hparent hkey used
    exact List.forall_mem_append.mpr
      ⟨isValid_declareSlots path hname children _ met.right.tail,
        List.forall_mem_singleton.mpr hname⟩

theorem isValid_declareSlots (path : List String) {parent : String}
    (hparent : Name.isValid parent = true) :
    ∀ (children : List (String × Node)) (used : List String), Met (ofChildren path children) →
      ∀ level ∈ (declareSlots choices aliasName parent used (Node.shape table children)).levels,
        Name.isValid level.name = true
  | [], used, _ => nofun
  | (key, node) :: rest, used, met => by
    have hkey := met.names _ key (List.mem_append_left _ List.mem_cons_self)
    have hfirst := isValid_declareContent (path ++ [key]) hparent hkey node used met.left.tail
    exact List.forall_mem_append.mpr
      ⟨hfirst, isValid_declareSlots path hparent rest _ met.right⟩

end

end

section
variable {query : Query} {choices : Choices}

theorem isValid_variablesPart (hroot : Name.isValid (rootName query choices) = true)
    (hvariables : ∀ name, choices.variablesName = some name → Name.isValid name = true) :
    ∀ d ∈ (variablesPart query choices).levels, Name.isValid d.name = true := by
  unfold variablesPart
  split
  · exact nofun
  · refine List.forall_mem_singleton.mpr (isValid_freshName ?_ _)
    cases hname : choices.variablesName with
    | none =>
      have hending : Name.isValid "Variables" = true := by decide
      exact Name.isValid_append hroot fun _ => Name.isPart_of_mem hending
    | some name => exact hvariables name hname

theorem isValid_aliasPart :
    ∀ d ∈ (aliasPart query choices).levels, Name.isValid d.name = true := by
  unfold aliasPart
  split
  · have hnested : Name.isValid "Nested" = true := by decide
    exact List.forall_mem_singleton.mpr (isValid_freshName hnested _)
  · exact nofun

end

variable {root : Group} {operationName : Option String} {table : ScalarTable} {query : Query}
  {choices : Choices}

theorem isValid_rootName (compiled : root.compile operationName table = .ok query)
    (rootNamed : ∀ name, choices.rootName = some name → Name.isValid name = true) :
    Name.isValid (rootName query choices) =
      Name.isLettered ((choices.rootName <|> operationName).getD "Query") := by
  have met := Group.met_of_compile compiled
  obtain ⟨_, _, -, -, rfl⟩ := Group.exists_of_compile compiled
  apply isValid_pascalCase
  cases hroot : choices.rootName with
  | some name => exact rootNamed name hroot
  | none =>
    cases operationName with
    | some name => exact met.names .operation name List.mem_cons_self
    | none => exact (by decide : Name.isValid "Query" = true)

/-- With chosen names that are names, all declarations of a query have such names exactly if a
letter comes before any digit in the name that the result interface is named after. -/
theorem names_valid_iff (compiled : root.compile operationName table = .ok query)
    (rootNamed : ∀ name, choices.rootName = some name → Name.isValid name = true)
    (variablesNamed : ∀ name, choices.variablesName = some name → Name.isValid name = true) :
    (∀ d ∈ declarations query choices, Name.isValid d.name = true) ↔
      Name.isLettered ((choices.rootName <|> operationName).getD "Query") = true := by
  rw [← isValid_rootName compiled rootNamed, declarations_eq]
  simp only [List.forall_mem_append, List.forall_mem_singleton, Declaration.name]
  constructor
  · exact fun h => h.2
  · intro hroot
    have met := (Group.met_of_compile compiled).right.tail
    have hlevels : ∀ level ∈ (levelsPart query choices).levels, Name.isValid level.name = true := by
      obtain ⟨_, _, -, -, rfl⟩ := Group.exists_of_compile compiled
      exact isValid_declareSlots table choices _ [] hroot root.children _ met
    exact ⟨⟨⟨isValid_variablesPart hroot variablesNamed, isValid_aliasPart⟩, hlevels⟩, hroot⟩

/-- The first lines of an order, each with its second tag. -/
def firstLines : Group :=
  .ofList [("lines", .group (some (.ofList none [("first", ⟨"$n", "Int!"⟩)]))
    [("_2nd", .group none [("tag", .scalar none "String")])])]

def underscoreVariables : Choices := { variablesName := some "_" }

theorem names_valid_firstLines :
    ∃ query, firstLines.compile (some "__order_1") .builtin = .ok query ∧
      (declarations query underscoreVariables).map Declaration.name =
        ["_", "Nested", "Order1Lines2nd", "Order1Lines", "Order1"] ∧
      ∀ d ∈ declarations query underscoreVariables, Name.isValid d.name = true := by
  have compiled : firstLines.compile (some "__order_1") .builtin =
      .ok ⟨⟨some "__order_1", [⟨"n", .nonNull (.named "Int")⟩],
        Node.selections firstLines.children⟩, Node.shape .builtin firstLines.children,
          .builtin⟩ := by with_unfolding_all rfl
  have rootNamed : ∀ name, underscoreVariables.rootName = some name →
      Name.isValid name = true := by
    intro name heq
    cases heq
  have variablesNamed : ∀ name, underscoreVariables.variablesName = some name →
      Name.isValid name = true := by
    intro name heq
    cases heq
    decide
  have hvalid := names_valid_iff compiled rootNamed variablesNamed
  exact ⟨_, compiled, by rfl, hvalid.mpr (by decide)⟩

/-- The name `_` of an operation leaves its result interface without a name. -/
theorem names_invalid_underscore :
    Name.isValid "_" = true ∧
      ∃ query, (Group.ofList [("a", .scalar none "Int")]).compile (some "_") .builtin = .ok query ∧
        query.typings {} = "export interface  \x7b\n  a: number | null;\n\x7d\n" ∧
        ∃ d ∈ declarations query {}, Name.isValid d.name = false := by
  have compiled : (Group.ofList [("a", .scalar none "Int")]).compile (some "_") .builtin =
      .ok ⟨⟨some "_", [], [.leaf ⟨"a", none, []⟩]⟩,
        [⟨"a", "a", .leaf (.typed (.named "Int") .integer)⟩], .builtin⟩ := by with_unfolding_all rfl
  refine ⟨by decide, _, compiled, by rfl, ?_⟩
  exact ⟨.interface "" [⟨"a", .orNull .number, false⟩], by decide, by decide⟩

end Typings

end WireQuery
