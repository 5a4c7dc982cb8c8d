import WireQuery.Proofs.Result.Levels
import WireQuery.Proofs.Typings.Sound

/-!
# The declarations of a query are closed

The declarations are an interface for the variables, the alias for nested levels and an interface
for each level of the shape. A member mentions only what has been declared before, and a member for
a nested level mentions the alias and the interface of that very level.
-/

namespace WireQuery.Typings
set_option autoImplicit false

/-- The member for what stands under a key, where a nested level has the given name. -/
def contentMember (choices : Choices) (aliasName key name : String) : Content → Member
  | .leaf leaf => leafMember choices key leaf
  | .nested _ => ⟨key, .nested aliasName name, false⟩

/-- The members of the level that a walk leads to, where levels are named by their walks. -/
def levelMembers (choices : Choices) (aliasName : String) (nameAt : Walk → String) (walk : Walk)
    (slots : List (Slot Content)) : List Member :=
  slots.mapIdx fun i slot =>
    contentMember choices aliasName slot.key (nameAt (walk ++ [i])) slot.content

def levelInterface (choices : Choices) (aliasName : String) (nameAt : Walk → String)
    (level : Walk × List (Slot Content)) : Declaration :=
  .interface (nameAt level.1) (levelMembers choices aliasName nameAt level.1 level.2)

@[simp] theorem key_contentMember (choices : Choices) (aliasName key name : String)
    (content : Content) :
    (contentMember choices aliasName key name content).key = key := by
  cases content with
  | leaf leaf => simp [contentMember]
  | nested slots => rfl

theorem keys_levelMembers (choices : Choices) (aliasName : String) (nameAt : Walk → String)
    (walk : Walk) (slots : List (Slot Content)) :
    (levelMembers choices aliasName nameAt walk slots).map Member.key = slots.map Slot.key := by
  apply List.ext_getElem?
  intro i
  rw [levelMembers, List.getElem?_map, List.getElem?_mapIdx, List.getElem?_map, Option.map_map]
  simp only [Function.comp_def, key_contentMember]

section
variable (choices : Choices) (aliasName : String)

mutual

theorem exists_nameAt_content (parent key : String) (used : List String) : ∀ content : Content,
    ∃ nameAt : Walk → String,
      (declareContent choices aliasName parent key used content).levels =
        content.levels.map (levelInterface choices aliasName nameAt) ∧
      (declareContent choices aliasName parent key used content).members =
        [contentMember choices aliasName key (nameAt []) content]
  | .leaf leaf => ⟨fun _ => parent, rfl, rfl⟩
  | .nested slots => by
    obtain ⟨nameAt, hname, hlevels, hmembers⟩ := exists_nameAt_slots
      (freshName used (parent ++ pascalCase key))
      (freshName used (parent ++ pascalCase key) :: used) slots
    refine ⟨nameAt, ?_, ?_⟩
    · simp only [declareContent, Content.levels, List.map_append, List.map_map, hlevels, hmembers,
        levelInterface, List.map_singleton, hname]
      rfl
    · rw [contentMember, hname]
      rfl

theorem exists_nameAt_slots (parent : String) (used : List String) :
    ∀ slots : List (Slot Content), ∃ nameAt : Walk → String, nameAt [] = parent ∧
      (declareSlots choices aliasName parent used slots).levels =
        (slotsLevels slots).map (fun inner =>
          levelInterface choices aliasName nameAt (inner.1 :: inner.2.1, inner.2.2)) ∧
      (declareSlots choices aliasName parent used slots).members =
        levelMembers choices aliasName nameAt [] slots
  | [] => ⟨fun _ => parent, rfl, rfl, rfl⟩
  | ⟨key, responseKey, content⟩ :: rest => by
    obtain ⟨nameIn, hlevels, hmembers⟩ := exists_nameAt_content parent key used content
    obtain ⟨nameAfter, -, hothers, hmembersAfter⟩ := exists_nameAt_slots parent
      (declareContent choices aliasName parent key used content).used rest
    let nameAt : Walk → String
      | [] => parent
      | 0 :: walk => nameIn walk
      | (i + 1) :: walk => nameAfter (i :: walk)
    refine ⟨nameAt, rfl, ?_, ?_⟩
    · rw [declareSlots, slotsLevels, List.map_append, List.map_map, List.map_map, hlevels, hothers]
      rfl
    · rw [declareSlots, hmembers, hmembersAfter, levelMembers, levelMembers, List.mapIdx_cons]
      rfl

end

end

/-- The interfaces and aliases that a type mentions. -/
def Ty.mentioned : Ty → List String
  | array element => element.mentioned
  | orNull ty => ty.mentioned
  | nested aliasName interface => [aliasName, interface]
  | string | number | boolean | unknown => []

namespace Declaration

def members : Declaration → List Member
  | interface _ members => members
  | nestedAlias _ => []

def mentioned (d : Declaration) : List String := d.members.flatMap fun member => member.ty.mentioned

end Declaration

/-- Each declaration mentions only known names and those of declarations before it. -/
def ClosedAfter (known : List String) : List Declaration → Prop
  | [] => True
  | d :: rest => d.mentioned ⊆ known ∧ ClosedAfter (known ++ [d.name]) rest

namespace ClosedAfter

variable {known : List String} {declared others : List Declaration}

theorem append (h : ClosedAfter known declared)
    (hothers : ClosedAfter (known ++ declared.map Declaration.name) others) :
    ClosedAfter known (declared ++ others) := by
  induction declared generalizing known with
  | nil =>
    rw [List.map_nil, List.append_nil] at hothers
    exact hothers
  | cons d rest ih =>
    rw [List.map_cons, List.append_cons] at hothers
    exact ⟨h.1, ih h.2 hothers⟩

theorem mentioned_subset {before after : List Declaration} {d : Declaration}
    (h : ClosedAfter known (before ++ d :: after)) :
    d.mentioned ⊆ known ++ before.map Declaration.name := by
  induction before generalizing known with
  | nil =>
    rw [List.map_nil, List.append_nil]
    exact h.1
  | cons first before ih =>
    rw [List.map_cons, List.append_cons]
    exact ih h.2

end ClosedAfter

@[simp] theorem mentioned_ofPresent (kind : ScalarKind) (t : WireType) :
    (ofPresent kind t).mentioned = [] := by
  induction t with
  | named name => cases kind <;> rfl
  | list element ih =>
    rw [ofPresent_list, ofType]
    split <;> exact ih
  | nonNull inner ih => exact ih

@[simp] theorem mentioned_ofType (kind : ScalarKind) (t : WireType) :
    (ofType kind t).mentioned = [] := by
  unfold ofType
  split <;> exact mentioned_ofPresent kind t

@[simp] theorem mentioned_leafMember (choices : Choices) (key : String) (leaf : Leaf) :
    (leafMember choices key leaf).ty.mentioned = [] := by
  cases leaf with
  | typed type kind => simp [leafMember]
  | untyped descriptor => rfl

/-- What is declared beside known names is closed, and so are its members behind it. -/
structure Declared.Closed (known : List String) (d : Declared) : Prop where
  levels : ClosedAfter known d.levels
  members : ∀ member ∈ d.members, member.ty.mentioned ⊆ known ++ d.levels.map Declaration.name

namespace Declared.Closed

variable {known : List String}

theorem interface {inner : Declared} (h : inner.Closed known) (name : String) :
    ClosedAfter known (inner.levels ++ [.interface name inner.members]) := by
  refine h.levels.append ⟨?_, trivial⟩
  intro mentioned hmentioned
  obtain ⟨member, hmember, hmentioned⟩ := List.mem_flatMap.mp hmentioned
  exact h.members member hmember hmentioned

theorem level {inner : Declared} {aliasName : String} (h : inner.Closed known)
    (aliased : aliasName ∈ known) (key name : String) (used : List String) :
    Closed known ⟨inner.levels ++ [.interface name inner.members],
      [⟨key, .nested aliasName name, false⟩], used⟩ where
  levels := h.interface name
  members := by
    intro member hmember
    rw [List.mem_singleton.mp hmember, List.map_append]
    refine List.cons_subset.mpr ⟨List.mem_append_left _ aliased, ?_⟩
    exact List.Subset.trans (List.subset_append_right _ _) (List.subset_append_right _ _)

theorem append {first others : Declared} (hfirst : first.Closed known)
    (hothers : others.Closed (known ++ first.levels.map Declaration.name)) (used : List String) :
    Closed known ⟨first.levels ++ others.levels, first.members ++ others.members, used⟩ where
  levels := hfirst.levels.append hothers.levels
  members := by
    rw [List.map_append, ← List.append_assoc]
    refine List.forall_mem_append.mpr ⟨?_, hothers.members⟩
    intro member hmember
    exact List.Subset.trans (hfirst.members member hmember) (List.subset_append_left _ _)

end Declared.Closed

section
variable (choices : Choices) (aliasName : String)

mutual

theorem closed_declareContent (parent key : String) (used known : List String) :
    ∀ content : Content, (content.isNested = true → aliasName ∈ known) →
      (declareContent choices aliasName parent key used content).Closed known
  | .leaf leaf, _ =>
    { levels := trivial
      members := by
        intro member hmember
        rw [List.mem_singleton.mp hmember, mentioned_leafMember]
        exact List.nil_subset _ }
  | .nested slots, aliased => by
    have hinner := closed_declareSlots (freshName used (parent ++ pascalCase key))
      (freshName used (parent ++ pascalCase key) :: used) known slots fun _ => aliased rfl
    exact hinner.level (aliased rfl) key _ _

theorem closed_declareSlots (parent : String) (used known : List String) :
    ∀ slots : List (Slot Content),
      (slots.any (fun slot => slot.content.isNested) = true → aliasName ∈ known) →
      (declareSlots choices aliasName parent used slots).Closed known
  | [], _ => ⟨trivial, nofun⟩
  | ⟨key, _, content⟩ :: rest, aliased => by
    rw [List.any_cons, Bool.or_eq_true] at aliased
    have hfirst := closed_declareContent parent key used known content
      fun hnested => aliased (Or.inl hnested)
    have hothers := closed_declareSlots parent
      (declareContent choices aliasName parent key used content).used
      (known ++ (declareContent choices aliasName parent key used content).levels.map
        Declaration.name) rest
      fun hnested => List.mem_append_left _ (aliased (Or.inr hnested))
    exact hfirst.append hothers _

end

end

section
variable (query : Query) (choices : Choices)

theorem closedAfter_variablesPart (known : List String) :
    ClosedAfter known (variablesPart query choices).levels := by
  unfold variablesPart
  split
  · trivial
  · refine ⟨?_, trivial⟩
    intro name hname
    obtain ⟨member, hmember, hname⟩ := List.mem_flatMap.mp hname
    obtain ⟨v, -, rfl⟩ := List.mem_map.mp hmember
    rw [variableMember, mentioned_ofType] at hname
    cases hname

theorem closedAfter_aliasPart (known : List String) :
    ClosedAfter known (aliasPart query choices).levels := by
  unfold aliasPart
  split
  · exact ⟨List.nil_subset _, trivial⟩
  · trivial

theorem closedAfter_declarations : ClosedAfter [] (declarations query choices) := by
  have aliased : query.shape.any (fun slot => slot.content.isNested) = true →
      aliasName query choices ∈
        [] ++ ((variablesPart query choices).levels ++ (aliasPart query choices).levels).map
          Declaration.name := by
    intro hnested
    rw [List.nil_append, List.map_append]
    apply List.mem_append_right
    exact List.mem_map_of_mem (f := Declaration.name) (nestedAlias_mem hnested)
  have hpreface := (closedAfter_variablesPart query choices []).append
    (closedAfter_aliasPart query choices _)
  have hlevels := closed_declareSlots choices (aliasName query choices) (rootName query choices)
    (aliasPart query choices).used _ query.shape aliased
  rw [declarations_eq, List.append_assoc]
  exact hpreface.append (hlevels.interface _)

theorem levels_declarations : ∃ nameAt : Walk → String, nameAt [] = rootName query choices ∧
    declarations query choices =
      (variablesPart query choices).levels ++ (aliasPart query choices).levels ++
        query.shape.levels.map (levelInterface choices (aliasName query choices) nameAt) := by
  obtain ⟨nameAt, hroot, hlevels, hmembers⟩ := exists_nameAt_slots choices (aliasName query choices)
    (rootName query choices) (aliasPart query choices).used query.shape
  refine ⟨nameAt, hroot, ?_⟩
  rw [declarations_eq, levelsPart, hlevels, hmembers, Shape.levels, Content.levels, List.map_append,
    List.map_map, List.append_assoc, List.map_singleton, levelInterface, hroot]
  rfl

end

/-- The interface of the variables with a member for each, if there are any. -/
def IsVariablesPart (query : Query) (declared : List Declaration) : Prop :=
  (query.document.definitions = [] ∧ declared = []) ∨
    (query.document.definitions ≠ [] ∧ ∃ name members, declared = [.interface name members] ∧
      members = query.document.definitions.map (variableMember query.table) ∧
      members.map Member.key = query.document.definitions.map VariableDefinition.name)

/-- The alias for nested levels, if there are any. -/
def IsAliasPart (shape : Shape) (name : String) (declared : List Declaration) : Prop :=
  ((∃ walk, walk ≠ [] ∧ (shape.level? walk).isSome = true) ∧ declared = [.nestedAlias name]) ∨
    ((∀ walk, (shape.level? walk).isSome = true → walk = []) ∧ declared = [])

theorem IsAliasPart.mem {shape : Shape} {name : String} {declared : List Declaration}
    (h : IsAliasPart shape name declared)
    (hnested : ∃ walk, walk ≠ [] ∧ (shape.level? walk).isSome = true) :
    .nestedAlias name ∈ declared := by
  rcases h with ⟨-, rfl⟩ | ⟨hnone, -⟩
  · exact List.mem_singleton_self _
  · obtain ⟨walk, hwalk, hlevel⟩ := hnested
    exact absurd (hnone walk hlevel) hwalk

/-- The declarations of a query in three parts, where the last has an interface for each level,
named by its walk. -/
structure Outline (query : Query) (choices : Choices) (forVariables forNesting : List Declaration)
    (aliasName : String) (nameAt : Walk → String) : Prop where
  parts : declarations query choices = forVariables ++ forNesting ++
    query.shape.levels.map (levelInterface choices aliasName nameAt)
  ofVariables : IsVariablesPart query forVariables
  ofNesting : IsAliasPart query.shape aliasName forNesting
  root : nameAt [] = rootName query choices
  levels : ∀ walk slots, (walk, slots) ∈ query.shape.levels ↔
    query.shape.level? walk = some slots
  once : (query.shape.levels.map Prod.fst).Nodup
  distinct : ((declarations query choices).map Declaration.name).Nodup
  declared : ∀ before d after, declarations query choices = before ++ d :: after →
    d.mentioned ⊆ before.map Declaration.name
  keys : ∀ level ∈ query.shape.levels,
    (levelMembers choices aliasName nameAt level.1 level.2).map Member.key =
      level.2.map Slot.key
  /-- A slot with a level inside applies the alias to the interface of that level. -/
  applied : ∀ walk slots i slot inner, (walk, slots) ∈ query.shape.levels →
    slots[i]? = some slot → slot.content = .nested inner →
      (walk ++ [i], inner) ∈ query.shape.levels ∧ .nestedAlias aliasName ∈ forNesting ∧
        (levelMembers choices aliasName nameAt walk slots)[i]? =
          some ⟨slot.key, .nested aliasName (nameAt (walk ++ [i])), false⟩

section
variable (query : Query) (choices : Choices)

theorem isVariablesPart : IsVariablesPart query (variablesPart query choices).levels := by
  unfold variablesPart
  split
  · next h => exact Or.inl ⟨List.isEmpty_iff.mp h, rfl⟩
  · next h =>
    refine Or.inr ⟨fun heq => h (List.isEmpty_iff.mpr heq), _, _, rfl, rfl, ?_⟩
    rw [List.map_map]
    rfl

theorem isAliasPart :
    IsAliasPart query.shape (aliasName query choices) (aliasPart query choices).levels := by
  unfold aliasPart
  split
  · next h => exact Or.inl ⟨Shape.any_isNested.mp h, rfl⟩
  · next h =>
    refine Or.inr ⟨?_, rfl⟩
    intro walk hlevel
    by_contra hwalk
    exact h (Shape.any_isNested.mpr ⟨walk, hwalk, hlevel⟩)

/-- The declarations of a query are the interface of its variables, the alias for nested levels and
one interface for each level of its shape. The names are distinct. A member for a nested level
applies the alias to the interface of that very level, and every name that is mentioned has been
declared before. Each interface has the keys of its level in order. -/
theorem declarations_closed : ∃ forVariables forNesting aliasName nameAt,
    Outline query choices forVariables forNesting aliasName nameAt := by
  obtain ⟨nameAt, hroot, hparts⟩ := levels_declarations query choices
  have hdistinct := names_nodup query choices
  have hnesting := isAliasPart query choices
  refine ⟨_, _, _, nameAt, hparts, isVariablesPart query choices, hnesting, hroot,
    fun _ _ => Shape.mem_levels, ?once, hdistinct, ?declared, ?keys, ?applied⟩
  case once =>
    rw [hparts, List.map_append, List.map_map] at hdistinct
    have hnames := (List.nodup_append.mp hdistinct).2.1
    have hwalks : Declaration.name ∘ levelInterface choices (aliasName query choices) nameAt =
        nameAt ∘ Prod.fst := rfl
    rw [hwalks, ← List.map_map] at hnames
    exact hnames.of_map
  case declared =>
    intro before d after hsplit
    have hclosed := closedAfter_declarations query choices
    rw [hsplit] at hclosed
    exact hclosed.mentioned_subset
  case keys =>
    intro level _
    exact keys_levelMembers choices _ nameAt level.1 level.2
  case applied =>
    intro walk slots i slot inner hlevel hslot hinner
    have hnext := Shape.level?_concat (Shape.mem_levels.mp hlevel) hslot hinner
    refine ⟨Shape.mem_levels.mpr hnext, hnesting.mem ⟨walk ++ [i], by simp, ?_⟩, ?_⟩
    · rw [hnext]
      rfl
    · rw [levelMembers, List.getElem?_mapIdx, hslot, Option.map_some, hinner, contentMember]

end

/-- The names of two levels collide here, and that of the result collides with the alias. -/
example : (declarations ⟨⟨none, [], []⟩,
    [⟨"a", "a", .nested [⟨"b", "b", .nested []⟩]⟩, ⟨"aB", "aB", .nested []⟩], .builtin⟩
    { rootName := some "nested" }).map Declaration.name =
      ["Nested2", "NestedAB", "NestedA", "NestedAB2", "Nested"] := by rfl

end WireQuery.Typings
