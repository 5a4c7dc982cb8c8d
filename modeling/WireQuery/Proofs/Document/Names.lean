import WireQuery.Proofs.Document.Grammar

/-!
# Names in documents

A well-formed document has only valid names: that of the operation, those of variables and of their
types, and those of fields, aliases and arguments at any depth.
-/

namespace WireQuery
set_option autoImplicit false

def VariableDefinition.names (d : VariableDefinition) : List String := [d.name, d.type.baseName]

def Argument.names (a : Argument) : List String := [a.name, a.variableName]

def Field.names (field : Field) : List String :=
  field.name :: field.aliasName.toList ++ field.arguments.flatMap Argument.names

namespace Selection

mutual

def names : Selection → List String
  | leaf field => field.names
  | nested field selections => field.names ++ namesIn selections

def namesIn : List Selection → List String
  | [] => []
  | s :: rest => s.names ++ namesIn rest

end

end Selection

/-- All names that stand in a document. -/
def Document.names (document : Document) : List String :=
  document.operationName.toList ++ document.definitions.flatMap VariableDefinition.names ++
    Selection.namesIn document.selections

def NamesValid (names : List String) : Prop := ∀ name ∈ names, Name.isValid name = true

theorem NamesValid.append {before rest : List String} (hbefore : NamesValid before)
    (hrest : NamesValid rest) : NamesValid (before ++ rest) := by
  intro name hname
  rcases List.mem_append.mp hname with hname | hname
  · exact hbefore name hname
  · exact hrest name hname

theorem NamesValid.flatMap {α : Type} {names : α → List String} {items : List α}
    (h : ∀ a ∈ items, NamesValid (names a)) : NamesValid (items.flatMap names) := by
  intro name hname
  obtain ⟨a, ha, hname⟩ := List.mem_flatMap.mp hname
  exact h a ha name hname

theorem VariableDefinition.namesValid {d : VariableDefinition} (h : d.WellFormed) :
    NamesValid d.names := by
  simp [NamesValid, names, h.name, h.type.name]

theorem Argument.namesValid {a : Argument} (h : a.WellFormed) : NamesValid a.names := by
  simp [NamesValid, names, h.name, h.variableName]

theorem Field.namesValid {field : Field} (h : field.WellFormed) : NamesValid field.names := by
  have hnames : NamesValid (field.name :: field.aliasName.toList) := by
    simpa [NamesValid, h.name] using h.aliasName
  exact hnames.append (.flatMap fun a ha => Argument.namesValid (h.arguments a ha))

namespace Selection

mutual

theorem namesValid : ∀ s : Selection, s.WellFormed → NamesValid s.names
  | leaf _, h => Field.namesValid h
  | nested _ selections, h => (Field.namesValid h.1).append (namesValid_namesIn selections h.2.2)

theorem namesValid_namesIn :
    ∀ selections : List Selection, AllWellFormed selections → NamesValid (namesIn selections)
  | [], _ => nofun
  | s :: rest, h => (namesValid s h.1).append (namesValid_namesIn rest h.2)

end

end Selection

theorem Document.namesValid {document : Document} (h : document.WellFormed) :
    NamesValid document.names := by
  have hoperation : NamesValid document.operationName.toList := by
    simpa [NamesValid] using h.operationName
  have hdefinitions : NamesValid (document.definitions.flatMap VariableDefinition.names) :=
    .flatMap fun d hd => VariableDefinition.namesValid (h.definitions d hd)
  exact (hoperation.append hdefinitions).append
    (Selection.namesValid_namesIn document.selections h.selections)

end WireQuery
