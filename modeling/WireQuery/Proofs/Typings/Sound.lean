import WireQuery.Compile.Basic
import WireQuery.Proofs.Result.Faithful
import WireQuery.Proofs.Typings.Levels
import WireQuery.Proofs.Typings.Readable

/-!
# The declared types are sound

Whatever a compiled query decodes inhabits the result interface of its TypeScript declarations, as
these are read from their text.
-/

namespace WireQuery.Typings
set_option autoImplicit false

open Node (keys_shape)
open TypeScript (isTypeName Inhabits Exact Resolves)

@[simp] theorem key_leafMember (choices : Choices) (key : String) (leaf : Leaf) :
    (leafMember choices key leaf).key = key := by
  cases leaf <;> rfl

@[simp] theorem keys_declareContent (choices : Choices) (aliasName parent key : String)
    (used : List String) (content : Content) :
    (declareContent choices aliasName parent key used content).members.map Member.key = [key] := by
  cases content with
  | leaf leaf => simp [declareContent]
  | nested slots => rfl

@[simp] theorem keys_declareSlots (choices : Choices) (aliasName parent : String)
    (used : List String) (slots : List (Slot Content)) :
    (declareSlots choices aliasName parent used slots).members.map Member.key =
      slots.map Slot.key := by
  induction slots generalizing used with
  | nil => rfl
  | cons slot rest ih => simp [declareSlots, ih]

section
variable {declared : List TypeScript.Declaration}

theorem typed_leaf (choices : Choices) {key : String} {leaf : Leaf} {path : ResultPath} {j : Json}
    {v : Value} (decoded : leaf.decode path j = .ok v) :
    Typed declared (leafMember choices key leaf).ty.denoted v := by
  obtain ⟨hfits, hmirrors, hjson⟩ := leaf.decode_answers.sound path j v decoded
  constructor
  · rw [hjson]
    cases leaf with
    | typed type kind => exact inhabits_ofType hfits
    | untyped descriptor => exact .unknown _
  · exact .objectless (objectless_of_mirrorsScalar hmirrors)

variable (table : ScalarTable) (choices : Choices) (aliasName : String)

mutual

theorem fieldsTyped_content (parent key : String) : ∀ (node : Node) (used : List String)
    (path : ResultPath) (j : Json) (v : Value), node.WellKeyed →
      ((node.content table).isNested = true →
        Resolves declared aliasName (Declaration.nestedAlias aliasName).denoted) →
      (∀ level ∈ (declareContent choices aliasName parent key used (node.content table)).levels,
        Resolves declared level.name level.denoted) →
      Shape.decodeContent (node.content table) path j = .ok v →
      FieldsTyped declared
        (declareContent choices aliasName parent key used (node.content table)).members [(key, v)]
  | .scalar call descriptor, used, path, j, v, _, _, _, decoded =>
    .cons ⟨(key_leafMember choices key _).symm, typed_leaf choices decoded⟩ .nil
  | .group call children, used, path, j, v, wellKeyed, aliased, levels, decoded => by
    obtain ⟨hdistinct, hchildren⟩ := wellKeyed
    obtain ⟨hinner, hlevel⟩ := List.forall_mem_append.mp levels
    let objects : Shape.ObjectDecoder :=
      { decode := Shape.decodeSlots (Node.shape table children)
        fits := slotsFit (Node.shape table children)
        gives := fun _ fields => FieldsTyped declared (declareSlots choices aliasName
          (freshName used (parent ++ pascalCase key))
          (freshName used (parent ++ pascalCase key) :: used)
          (Node.shape table children)).members fields
        projection := slotsProjection (Node.shape table children)
        succeeds := Node.decodeSlots_succeeds table children
        sound := by
          intro path members fields hfields
          obtain ⟨hfits, -, hjson⟩ :=
            Node.decodeSlots_sound table children path members fields hfields
          exact ⟨hfits, fieldsTyped_slots _ children _ path members fields hchildren
            (fun _ => aliased rfl) hinner hfields, hjson⟩ }
    obtain ⟨-, hmirrors, -⟩ := Shape.decodeLevel_sound objects j path v decoded
    refine .cons ⟨rfl, typed_of_mirrorsLevel (aliased rfl) ?_ hmirrors⟩ .nil
    intro members fields hfields
    apply FieldsTyped.typed hfields _ (hlevel _ (List.mem_singleton_self _))
    simpa using hdistinct

theorem fieldsTyped_slots (parent : String) : ∀ (children : List (String × Node))
    (used : List String) (path : ResultPath) (members : List (String × Json))
    (fields : List (String × Value)), Node.ChildrenWellKeyed children →
      ((Node.shape table children).any (fun slot => slot.content.isNested) = true →
        Resolves declared aliasName (Declaration.nestedAlias aliasName).denoted) →
      (∀ level ∈ (declareSlots choices aliasName parent used (Node.shape table children)).levels,
        Resolves declared level.name level.denoted) →
      Shape.decodeSlots (Node.shape table children) path members = .ok fields →
      FieldsTyped declared
        (declareSlots choices aliasName parent used (Node.shape table children)).members fields
  | [], used, path, members, fields, _, _, _, decoded => by
    rw [Node.shape, Shape.decodeSlots] at decoded
    cases decoded
    exact .nil
  | (key, node) :: rest, used, path, members, fields, ⟨hnode, hrest⟩, aliased, levels, decoded => by
    obtain ⟨hfirst, hothers⟩ := List.forall_mem_append.mp levels
    rw [Node.shape, Shape.decodeSlots] at decoded
    dsimp only at decoded
    split at decoded
    · cases decoded
    · next j hj =>
      obtain ⟨v, hv, decoded⟩ := Outcome.bind_eq_ok.mp decoded
      obtain ⟨others, hdecoded, heq⟩ := Outcome.bind_eq_ok.mp decoded
      cases heq
      have hcontent := fieldsTyped_content parent key node used _ j v hnode
        (fun hnested => aliased ((any_isNested_cons table).mpr (Or.inl hnested)))
        hfirst hv
      have hslots := fieldsTyped_slots parent rest _ path members others hrest
        (fun hnested => aliased ((any_isNested_cons table).mpr (Or.inr hnested)))
        hothers hdecoded
      exact List.rel_append hcontent hslots

end

end

/-- Every name of a declaration belongs to that declaration alone. -/
theorem resolves_declarations (query : Query) (choices : Choices) :
    ∀ d ∈ declarations query choices,
      Resolves ((declarations query choices).map Declaration.denoted) d.name d.denoted := by
  have hnames : ((declarations query choices).map Declaration.denoted).map
      TypeScript.Declaration.name = (declarations query choices).map Declaration.name := by
    simp
  intro d hd
  rw [← d.name_denoted]
  apply TypeScript.resolves_of_mem
  · rw [hnames]
    exact names_nodup query choices
  · exact List.mem_map_of_mem hd

theorem typed_decoded {root : Group} {operationName : Option String} {table : ScalarTable}
    {query : Query}
    (compiled : root.compile operationName table = .ok query) (choices : Choices)
    {response : Json} {v : Value} (decoded : query.shape.decode response = .ok v) :
    Typed ((declarations query choices).map Declaration.denoted)
      (.reference (rootName query choices)) v := by
  have hresolves := resolves_declarations query choices
  generalize (declarations query choices).map Declaration.denoted = declared at hresolves ⊢
  rw [declarations_eq] at hresolves
  simp only [List.forall_mem_append, List.forall_mem_singleton] at hresolves
  obtain ⟨⟨⟨-, halias⟩, hlevels⟩, hroot⟩ := hresolves
  have hnested : query.shape.any (fun slot => slot.content.isNested) = true →
      Resolves declared (aliasName query choices)
        (Declaration.nestedAlias (aliasName query choices)).denoted :=
    fun h => halias _ (nestedAlias_mem h)
  have hshape : query.shape = Node.shape table root.children := by
    obtain ⟨_, _, -, -, rfl⟩ := Group.exists_of_compile compiled
    rfl
  unfold levelsPart at hlevels hroot
  rw [hshape] at hlevels hroot hnested decoded
  obtain ⟨hdistinct, hchildren⟩ := root.wellKeyed
  cases response with
  | object members =>
    obtain ⟨fields, hfields, rfl⟩ := Outcome.map_eq_ok.mp decoded
    have htyped := fieldsTyped_slots table choices _ _ root.children _ [] members fields hchildren
      hnested hlevels hfields
    apply htyped.typed _ hroot
    simpa using hdistinct
  | _ => cases decoded

end WireQuery.Typings

namespace WireQuery.Query

open TypeScript (isTypeName Inhabits Exact)

/-- The text of the declarations can be read, and whatever is decoded inhabits the result interface
in it. Every object that is decoded has exactly the members of the interface of its level. -/
theorem typings_sound {root : Group} {operationName : Option String} {table : ScalarTable}
    {query : Query}
    (compiled : root.compile operationName table = .ok query) (choices : Typings.Choices)
    (named : ∀ d ∈ Typings.declarations query choices, isTypeName d.name = true) :
    ∃ declared, TypeScript.read (query.typings choices) = some declared ∧
      ∀ response v, query.shape.decode response = .ok v →
        Inhabits declared (.reference (Typings.rootName query choices)) v.toJson ∧
          Exact declared (.reference (Typings.rootName query choices)) v := by
  have hread := Typings.Declaration.read_textOfAll choices
    (Typings.readable_declarations compiled named)
  refine ⟨_, hread, ?_⟩
  intro response v decoded
  have htyped := Typings.typed_decoded compiled choices decoded
  exact ⟨htyped.inhabits, htyped.exact⟩

/-- Read-only members, and absent ones where null may stand. -/
def countedChoices : Typings.Choices := { optional := .questionMark, readOnly := true }

def countedTypings : String :=
  "export type Nested<T> = T | Nested<T>[] | null;\n\n" ++
    "export interface QueryLines \x7b\n  readonly qty: number;\n" ++
    "  readonly tags?: (string | null)[] | null;\n  readonly extra: unknown;\n\x7d\n\n" ++
    "export interface Query \x7b\n  readonly lines: Nested<QueryLines>;\n" ++
    "  readonly count: number;\n\x7d\n"

set_option maxRecDepth 8000 in
theorem typings_sound_lines :
    ∃ query, countedLines.compile none .builtin = .ok query ∧
      query.typings countedChoices = countedTypings ∧
      ∃ declared v, TypeScript.read countedTypings = some declared ∧
        query.shape.decode countedResponse = .ok v ∧
        Inhabits declared (.reference "Query") v.toJson ∧
          Exact declared (.reference "Query") v := by
  have compiled : countedLines.compile none .builtin = .ok ⟨⟨none, [],
      Node.selections countedLines.children⟩, countedShape, .builtin⟩ := by with_unfolding_all rfl
  have htext : typings ⟨⟨none, [], Node.selections countedLines.children⟩, countedShape,
      .builtin⟩ countedChoices = countedTypings := by rfl
  have hnames : (Typings.declarations ⟨⟨none, [], Node.selections countedLines.children⟩,
      countedShape, .builtin⟩ countedChoices).map Typings.Declaration.name =
        ["Nested", "QueryLines", "Query"] := by rfl
  have named : ∀ d ∈ Typings.declarations ⟨⟨none, [], Node.selections countedLines.children⟩,
      countedShape, .builtin⟩ countedChoices, isTypeName d.name = true := by
    intro d hd
    have hname := List.mem_map_of_mem (f := Typings.Declaration.name) hd
    rw [hnames] at hname
    generalize d.name = name at hname ⊢
    decide +revert
  obtain ⟨declared, hread, hsound⟩ := typings_sound compiled countedChoices named
  rw [htext] at hread
  obtain ⟨v, decoded⟩ : ∃ v, countedShape.decode countedResponse = .ok v := ⟨_, rfl⟩
  obtain ⟨hinhabits, hexact⟩ := hsound countedResponse v decoded
  exact ⟨_, compiled, htext, declared, v, hread, decoded, hinhabits, hexact⟩

end WireQuery.Query
