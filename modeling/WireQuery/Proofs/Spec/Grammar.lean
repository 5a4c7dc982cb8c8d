import WireQuery.Proofs.Spec.WellKeyed
import WireQuery.Spec.Reader

/-!
# The grammar of specifications

Which JSON values are nodes and what they denote, said without reading anything. The documented
grammar has no arrays but the pairs under `args`. The grammar with arrays also has `[p]` for an
object that marks `p` as an operation, and `[field, args, body]` for what the mark holds. A value
of the documented grammar denotes the same in both.
-/

namespace WireQuery
set_option autoImplicit false

/-- Induction over a value, with the hypothesis for its items or for what its members hold. -/
theorem Json.induction {motive : Json → Prop} (null : motive .null)
    (bool : ∀ b, motive (.bool b)) (number : ∀ n, motive (.number n))
    (string : ∀ s, motive (.string s))
    (array : ∀ items, (∀ item ∈ items, motive item) → motive (.array items))
    (object : ∀ members, (∀ member ∈ members, motive member.2) → motive (.object members))
    (j : Json) : motive j := by
  refine @Json.rec motive (fun items => ∀ item ∈ items, motive item)
    (fun members => ∀ member ∈ members, motive member.2) (fun member => motive member.2)
    null bool number string array object nofun ?_ nofun ?_ (fun _ _ h => h) j
  · intro item items hitem hitems
    exact List.forall_mem_cons.mpr ⟨hitem, hitems⟩
  · intro member members hmember hmembers
    exact List.forall_mem_cons.mpr ⟨hmember, hmembers⟩

/-- The call has the name and every argument once, where it is first given, with the reference that
it is last given. -/
structure Call.Resolves (wireName : Option String) (arguments : List (String × VariableRef))
    (call : Call) : Prop where
  wireName : call.wireName = wireName
  arguments : Keyed.Resolves arguments call.arguments

theorem Call.resolves_iff {wireName : Option String} {arguments : List (String × VariableRef)}
    {call : Call} : call.Resolves wireName arguments ↔ call = .ofList wireName arguments := by
  constructor
  · rintro ⟨hname, harguments⟩
    exact Call.ext hname (Keyed.resolves_iff.mp harguments)
  · rintro rfl
    exact ⟨rfl, Keyed.resolves_ofList arguments⟩

theorem Call.resolves_self (call : Call) : call.Resolves call.wireName call.arguments :=
  ⟨rfl, Keyed.resolves_self call.distinct⟩

namespace Node

/-! ## Forms -/

def FieldForm (j : Json) : Prop := j = .null ∨ ∃ name, j = .string name

def ReferenceForm (j : Json) : Prop :=
  ∃ written descriptor, j = .array [.string written, .string descriptor]

def ArgumentsForm (j : Json) : Prop :=
  ∃ members, j = .object members ∧ ∀ member ∈ members, ReferenceForm member.2

/-- The parts that an operation may have. -/
def partNames : List String := ["field", "args", "body"]

/-- The members of an operation: parts only, and none of them twice. -/
def PartsOnly (members : List (String × Json)) : Prop :=
  Keyed.DistinctKeys members ∧ ∀ key ∈ Keyed.keys members, key ∈ partNames

mutual

inductive Form (arrays : Bool) : Json → Prop where
  | scalar (descriptor : String) : Form arrays (.string descriptor)
  | operation {payload : Json} (marked : OperationForm arrays payload) :
      Form arrays (.object [(operationKey, payload)])
  | unmarked {payload : Json} (allowed : arrays = true) (operation : OperationForm arrays payload) :
      Form arrays (.array [payload])
  | group {members : List (String × Json)} (each : ∀ member ∈ members, Form arrays member.2) :
      Form arrays (.object members)

/-- What the mark of an operation holds. -/
inductive OperationForm (arrays : Bool) : Json → Prop where
  | parts {members : List (String × Json)} {body : Json} (only : PartsOnly members)
      (field : ∀ j, members.lookup "field" = some j → FieldForm j)
      (arguments : ∀ j, members.lookup "args" = some j → ArgumentsForm j)
      (given : members.lookup "body" = some body) (formed : BodyForm arrays body) :
      OperationForm arrays (.object members)
  | inOrder {field arguments body : Json} (allowed : arrays = true) (named : FieldForm field)
      (bound : ArgumentsForm arguments) (formed : BodyForm arrays body) :
      OperationForm arrays (.array [field, arguments, body])

inductive BodyForm (arrays : Bool) : Json → Prop where
  | scalar (descriptor : String) : BodyForm arrays (.string descriptor)
  | group {members : List (String × Json)} (each : ∀ member ∈ members, Form arrays member.2) :
      BodyForm arrays (.object members)

end

/-! ## Meanings -/

inductive FieldDenotes : Json → Option String → Prop where
  | null : FieldDenotes .null none
  | name (name : String) : FieldDenotes (.string name) (some name)

/-- Arguments under their names, each with a reference. -/
inductive ArgumentsDenote : Json → List (String × VariableRef) → Prop where
  | object {members : List (String × Json)} {references : List (String × VariableRef)}
      (each : List.Forall₂ (fun member reference => reference.1 = member.1 ∧
        member.2 = .array [.string reference.2.written, .string reference.2.descriptor])
        members references) : ArgumentsDenote (.object members) references

mutual

inductive Denotes (arrays : Bool) : Json → Node → Prop where
  | scalar (descriptor : String) : Denotes arrays (.string descriptor) (.scalar none descriptor)
  | operation {payload : Json} {node : Node} (marked : OperationDenotes arrays payload node) :
      Denotes arrays (.object [(operationKey, payload)]) node
  | unmarked {payload : Json} {node : Node} (allowed : arrays = true)
      (operation : OperationDenotes arrays payload node) : Denotes arrays (.array [payload]) node
  /-- An object is a group if it is not an operation, its mark included. -/
  | group {members : List (String × Json)} {children kept : List (String × Node)}
      (other : ∀ payload, members = [(operationKey, payload)] → ¬OperationForm arrays payload)
      (each : ChildrenDenote arrays members children) (resolved : Keyed.Resolves children kept) :
      Denotes arrays (.object members) (.group none kept)

inductive OperationDenotes (arrays : Bool) : Json → Node → Prop where
  | parts {members : List (String × Json)} {field : Option (Option String)}
      {arguments : Option (List (String × VariableRef))} {body : Json} {call : Call} {node : Node}
      (only : PartsOnly members) (named : Option.Rel FieldDenotes (members.lookup "field") field)
      (bound : Option.Rel ArgumentsDenote (members.lookup "args") arguments)
      (resolved : call.Resolves (field.getD none) (arguments.getD []))
      (given : members.lookup "body" = some body) (selected : BodyDenotes arrays body node) :
      OperationDenotes arrays (.object members) (node.called call)
  | inOrder {field arguments body : Json} {name : Option String}
      {references : List (String × VariableRef)} {call : Call} {node : Node}
      (allowed : arrays = true) (named : FieldDenotes field name)
      (bound : ArgumentsDenote arguments references) (resolved : call.Resolves name references)
      (selected : BodyDenotes arrays body node) :
      OperationDenotes arrays (.array [field, arguments, body]) (node.called call)

/-- What an operation selects. An object is always a group here. -/
inductive BodyDenotes (arrays : Bool) : Json → Node → Prop where
  | scalar (descriptor : String) :
      BodyDenotes arrays (.string descriptor) (.scalar none descriptor)
  | group {members : List (String × Json)} {children kept : List (String × Node)}
      (each : ChildrenDenote arrays members children) (resolved : Keyed.Resolves children kept) :
      BodyDenotes arrays (.object members) (.group none kept)

inductive ChildrenDenote (arrays : Bool) : List (String × Json) → List (String × Node) → Prop where
  | nil : ChildrenDenote arrays [] []
  | cons {key : String} {j : Json} {node : Node} {members : List (String × Json)}
      {children : List (String × Node)} (first : Denotes arrays j node)
      (rest : ChildrenDenote arrays members children) :
      ChildrenDenote arrays ((key, j) :: members) ((key, node) :: children)

end

/-! ## Every form has a meaning -/

variable {arrays : Bool}

theorem exists_fieldDenotes {j : Json} : (∃ name, FieldDenotes j name) ↔ FieldForm j := by
  constructor
  · rintro ⟨name, h⟩
    cases h with
    | null => exact Or.inl rfl
    | name name => exact Or.inr ⟨name, rfl⟩
  · rintro (rfl | ⟨name, rfl⟩)
    · exact ⟨none, .null⟩
    · exact ⟨some name, .name name⟩

theorem exists_argumentsDenote {j : Json} :
    (∃ arguments, ArgumentsDenote j arguments) ↔ ArgumentsForm j := by
  constructor
  · rintro ⟨arguments, h⟩
    obtain @⟨members, references, each⟩ := h
    refine ⟨members, rfl, ?_⟩
    induction each with
    | nil => exact fun _ h => nomatch h
    | cons hpair _ ih => exact List.forall_mem_cons.mpr ⟨⟨_, _, hpair.2⟩, ih⟩
  · rintro ⟨members, rfl, each⟩
    suffices ∃ references : List (String × VariableRef), List.Forall₂ (fun member reference =>
        reference.1 = member.1 ∧
          member.2 = .array [.string reference.2.written, .string reference.2.descriptor])
        members references by
      obtain ⟨references, hreferences⟩ := this
      exact ⟨_, .object hreferences⟩
    induction members with
    | nil => exact ⟨[], .nil⟩
    | cons member rest ih =>
      obtain ⟨⟨written, descriptor, hmember⟩, hrest⟩ := List.forall_mem_cons.mp each
      obtain ⟨references, hreferences⟩ := ih hrest
      exact ⟨(member.1, ⟨written, descriptor⟩) :: references, .cons ⟨rfl, hmember⟩ hreferences⟩

theorem exists_optionRel {α : Type} {given : Option Json} {R : Json → α → Prop} :
    (∃ value, Option.Rel R given value) ↔ ∀ j, given = some j → ∃ value, R j value := by
  constructor
  · rintro ⟨value, h⟩ j rfl
    cases h with
    | some h => exact ⟨_, h⟩
  · intro h
    cases given with
    | none => exact ⟨none, .none⟩
    | some j =>
      obtain ⟨value, hvalue⟩ := h j rfl
      exact ⟨some value, .some hvalue⟩

/-- A value of which every form denotes something, and nothing else denotes anything. -/
structure Settled (arrays : Bool) (j : Json) : Prop where
  node : (∃ node, Denotes arrays j node) ↔ Form arrays j
  operation : (∃ node, OperationDenotes arrays j node) ↔ OperationForm arrays j
  body : (∃ node, BodyDenotes arrays j node) ↔ BodyForm arrays j

theorem exists_childrenDenote {members : List (String × Json)}
    (ih : ∀ member ∈ members, Settled arrays member.2) :
    (∃ children, ChildrenDenote arrays members children) ↔
      ∀ member ∈ members, Form arrays member.2 := by
  induction members with
  | nil => exact ⟨nofun, fun _ => ⟨[], .nil⟩⟩
  | cons member rest ihrest =>
    obtain ⟨hmember, hrest⟩ := List.forall_mem_cons.mp ih
    rw [List.forall_mem_cons, ← hmember.node, ← ihrest hrest]
    constructor
    · rintro ⟨children, h⟩
      cases h with
      | cons first others => exact ⟨⟨_, first⟩, ⟨_, others⟩⟩
    · rintro ⟨⟨node, first⟩, ⟨children, others⟩⟩
      exact ⟨_, .cons first others⟩

theorem exists_bodyDenotes_object {members : List (String × Json)}
    (ih : ∀ member ∈ members, Settled arrays member.2) :
    (∃ node, BodyDenotes arrays (.object members) node) ↔ BodyForm arrays (.object members) := by
  constructor
  · rintro ⟨node, h⟩
    cases h with
    | group each resolved => exact .group ((exists_childrenDenote ih).mp ⟨_, each⟩)
  · intro h
    cases h with
    | group each =>
      obtain ⟨children, hchildren⟩ := (exists_childrenDenote ih).mpr each
      exact ⟨_, .group hchildren (Keyed.resolves_ofList children)⟩

theorem exists_operationDenotes_object {members : List (String × Json)}
    (ih : ∀ member ∈ members, Settled arrays member.2) :
    (∃ node, OperationDenotes arrays (.object members) node) ↔
      OperationForm arrays (.object members) := by
  have hbody : ∀ {j : Json}, members.lookup "body" = some j → Settled arrays j :=
    fun h => ih _ (Keyed.mem_of_lookup h)
  constructor
  · rintro ⟨node, h⟩
    cases h with
    | parts only named bound _ given selected =>
      refine .parts only ?_ ?_ given ((hbody given).body.mp ⟨_, selected⟩)
      · intro j hj
        exact exists_fieldDenotes.mp (exists_optionRel.mp ⟨_, named⟩ j hj)
      · intro j hj
        exact exists_argumentsDenote.mp (exists_optionRel.mp ⟨_, bound⟩ j hj)
  · intro h
    cases h with
    | parts only field arguments given formed =>
      obtain ⟨name, hname⟩ :=
        exists_optionRel.mpr fun j hj => exists_fieldDenotes.mpr (field j hj)
      obtain ⟨references, hreferences⟩ :=
        exists_optionRel.mpr fun j hj => exists_argumentsDenote.mpr (arguments j hj)
      obtain ⟨node, hnode⟩ := (hbody given).body.mpr formed
      exact ⟨_, .parts only hname hreferences (Call.resolves_iff.mpr rfl) given hnode⟩

theorem exists_operationDenotes_array {items : List Json}
    (ih : ∀ item ∈ items, Settled arrays item) :
    (∃ node, OperationDenotes arrays (.array items) node) ↔
      OperationForm arrays (.array items) := by
  constructor
  · rintro ⟨node, h⟩
    cases h with
    | inOrder allowed named bound _ selected =>
      have hbody := (ih _ (by simp)).body.mp ⟨_, selected⟩
      exact .inOrder allowed (exists_fieldDenotes.mp ⟨_, named⟩)
        (exists_argumentsDenote.mp ⟨_, bound⟩) hbody
  · intro h
    cases h with
    | inOrder allowed named bound formed =>
      obtain ⟨name, hname⟩ := exists_fieldDenotes.mpr named
      obtain ⟨references, hreferences⟩ := exists_argumentsDenote.mpr bound
      obtain ⟨node, hnode⟩ := (ih _ (by simp)).body.mpr formed
      exact ⟨_, .inOrder allowed hname hreferences (Call.resolves_iff.mpr rfl) hnode⟩

theorem exists_denotes_object {members : List (String × Json)}
    (ih : ∀ member ∈ members, Settled arrays member.2) :
    (∃ node, Denotes arrays (.object members) node) ↔ Form arrays (.object members) := by
  constructor
  · rintro ⟨node, h⟩
    cases h with
    | operation marked =>
      exact .operation ((ih _ (List.mem_singleton_self _)).operation.mp ⟨_, marked⟩)
    | group other each resolved => exact .group ((exists_childrenDenote ih).mp ⟨_, each⟩)
  · intro h
    -- The mark goes first: a group is meant only where what is marked is no operation.
    by_cases hmarked : ∃ payload, members = [(operationKey, payload)] ∧
        OperationForm arrays payload
    · obtain ⟨payload, rfl, hpayload⟩ := hmarked
      obtain ⟨node, hnode⟩ := (ih _ (List.mem_singleton_self _)).operation.mpr hpayload
      exact ⟨node, .operation hnode⟩
    · cases h with
      | operation marked => exact (hmarked ⟨_, rfl, marked⟩).elim
      | group each =>
        obtain ⟨children, hchildren⟩ := (exists_childrenDenote ih).mpr each
        refine ⟨_, .group ?_ hchildren (Keyed.resolves_ofList children)⟩
        intro payload hmembers hpayload
        exact hmarked ⟨payload, hmembers, hpayload⟩

theorem exists_denotes_array {items : List Json} (ih : ∀ item ∈ items, Settled arrays item) :
    (∃ node, Denotes arrays (.array items) node) ↔ Form arrays (.array items) := by
  constructor
  · rintro ⟨node, h⟩
    cases h with
    | unmarked allowed operation =>
      exact .unmarked allowed ((ih _ (List.mem_singleton_self _)).operation.mp ⟨_, operation⟩)
  · intro h
    cases h with
    | unmarked allowed operation =>
      obtain ⟨node, hnode⟩ := (ih _ (List.mem_singleton_self _)).operation.mpr operation
      exact ⟨node, .unmarked allowed hnode⟩

theorem settled (arrays : Bool) (j : Json) : Settled arrays j := by
  -- What is under a mark is an operation and what is under `body` is a body, so the three forms
  -- are settled together.
  induction j using Json.induction with
  | null =>
    exact ⟨⟨nofun, nofun⟩, ⟨nofun, nofun⟩, ⟨nofun, nofun⟩⟩
  | bool b =>
    exact ⟨⟨nofun, nofun⟩, ⟨nofun, nofun⟩, ⟨nofun, nofun⟩⟩
  | number n =>
    exact ⟨⟨nofun, nofun⟩, ⟨nofun, nofun⟩, ⟨nofun, nofun⟩⟩
  | string descriptor =>
    exact ⟨⟨fun _ => .scalar descriptor, fun _ => ⟨_, .scalar descriptor⟩⟩, ⟨nofun, nofun⟩,
      ⟨fun _ => .scalar descriptor, fun _ => ⟨_, .scalar descriptor⟩⟩⟩
  | array items ih =>
    exact ⟨exists_denotes_array ih, exists_operationDenotes_array ih, ⟨nofun, nofun⟩⟩
  | object members ih =>
    exact ⟨exists_denotes_object ih, exists_operationDenotes_object ih,
      exists_bodyDenotes_object ih⟩

/-! ## Documented values denote the same with arrays -/

theorem not_operationForm_marked {payload : Json} :
    ¬OperationForm arrays (.object [(operationKey, payload)]) := by
  intro h
  cases h with
  | parts only field arguments given formed =>
    have hmark := only.2 operationKey (List.mem_singleton_self _)
    revert hmark
    decide

theorem form_members_of_operation {arrays' : Bool} {members : List (String × Json)}
    (hoperation : OperationForm arrays' (.object members)) (h : Form arrays (.object members)) :
    ∀ member ∈ members, Form arrays member.2 := by
  cases h with
  | operation => exact (not_operationForm_marked hoperation).elim
  | group each => exact each

/-- Arguments that are nodes as well are empty, since a pair of strings is not a node. -/
theorem eq_nil_of_argumentsForm {members : List (String × Json)}
    (harguments : ∀ member ∈ members, ReferenceForm member.2) (h : Form arrays (.object members)) :
    members = [] := by
  cases members with
  | nil => rfl
  | cons member rest =>
    obtain ⟨written, descriptor, hmember⟩ := harguments member List.mem_cons_self
    cases h with
    | operation marked =>
      cases hmember
      cases marked
    | group each =>
      have hform := each member List.mem_cons_self
      rw [hmember] at hform
      cases hform

theorem form_of_bodyForm {j : Json} (h : BodyForm arrays j) : Form arrays j := by
  cases h with
  | scalar descriptor => exact .scalar descriptor
  | group each => exact .group each

/-- The payload of a documented operation is a documented group if it is a group at all. -/
theorem form_of_operationForm {j : Json} (hoperation : OperationForm false j)
    (h : Form true j) : Form false j := by
  cases hoperation with
  | inOrder allowed => cases allowed
  | @parts members body only field arguments given formed =>
    have heach := form_members_of_operation (.parts only field arguments given formed) h
    refine .group fun member hmember => ?_
    have hlookup := Keyed.lookup_eq_some_of_mem only.1 hmember
    have hform := heach member hmember
    have hkey := only.2 member.1 (List.mem_map_of_mem hmember)
    simp only [partNames, List.mem_cons, List.not_mem_nil, or_false] at hkey
    rcases hkey with hkey | hkey | hkey <;> rw [hkey] at hlookup
    · rcases field _ hlookup with hnull | ⟨name, hname⟩
      · rw [hnull] at hform
        cases hform
      · rw [hname]
        exact .scalar name
    · obtain ⟨pairs, heq, hpairs⟩ := arguments _ hlookup
      rw [heq] at hform ⊢
      rw [eq_nil_of_argumentsForm hpairs hform]
      exact .group nofun
    · cases given.symm.trans hlookup
      exact form_of_bodyForm formed

theorem bodyForm_of_form {j : Json} (hbody : BodyForm true j) (h : Form false j) :
    BodyForm false j := by
  cases hbody with
  | scalar descriptor => exact .scalar descriptor
  | group each =>
    cases h with
    | operation marked =>
      apply BodyForm.group
      intro member hmember
      cases List.mem_singleton.mp hmember
      exact form_of_operationForm marked (each _ hmember)
    | group each => exact .group each

theorem operationForm_of_form {j : Json} (hoperation : OperationForm true j)
    (h : Form false j) : OperationForm false j := by
  cases hoperation with
  | inOrder => cases h
  | parts only field arguments given formed =>
    have heach := form_members_of_operation (.parts only field arguments given formed) h
    have hbody := heach _ (Keyed.mem_of_lookup given)
    exact .parts only field arguments given (bodyForm_of_form formed hbody)

mutual

/-- What the documented grammar says of a value holds with arrays as well. -/
theorem Denotes.withArrays {j : Json} {node : Node} : Denotes false j node → Denotes true j node
  | .scalar descriptor => .scalar descriptor
  | .operation marked => .operation marked.withArrays
  | .group other each resolved => by
    refine .group ?_ each.withArrays resolved
    rintro payload rfl hoperation
    cases each with
    | cons first rest =>
      have hform := (settled false payload).node.mp ⟨_, first⟩
      exact other payload rfl (operationForm_of_form hoperation hform)

theorem OperationDenotes.withArrays {j : Json} {node : Node} :
    OperationDenotes false j node → OperationDenotes true j node
  | .parts only named bound resolved given selected =>
    .parts only named bound resolved given selected.withArrays

theorem BodyDenotes.withArrays {j : Json} {node : Node} :
    BodyDenotes false j node → BodyDenotes true j node
  | .scalar descriptor => .scalar descriptor
  | .group each resolved => .group each.withArrays resolved

theorem ChildrenDenote.withArrays {members : List (String × Json)}
    {children : List (String × Node)} :
    ChildrenDenote false members children → ChildrenDenote true members children
  | .nil => .nil
  | .cons first rest => .cons first.withArrays rest.withArrays

end

mutual

/-- What a value denotes repeats no key. -/
theorem Denotes.wellKeyed {j : Json} {node : Node} : Denotes arrays j node → node.WellKeyed
  | .scalar _ => trivial
  | .operation marked => marked.wellKeyed
  | .unmarked _ operation => operation.wellKeyed
  | .group _ each resolved => wellKeyed_of_resolves resolved each.wellKeyed

theorem OperationDenotes.wellKeyed {j : Json} {node : Node} :
    OperationDenotes arrays j node → node.WellKeyed
  | .parts _ _ _ _ _ selected => wellKeyed_called _ selected.wellKeyed
  | .inOrder _ _ _ _ selected => wellKeyed_called _ selected.wellKeyed

theorem BodyDenotes.wellKeyed {j : Json} {node : Node} : BodyDenotes arrays j node → node.WellKeyed
  | .scalar _ => trivial
  | .group each resolved => wellKeyed_of_resolves resolved each.wellKeyed

theorem ChildrenDenote.wellKeyed {members : List (String × Json)}
    {children : List (String × Node)} :
    ChildrenDenote arrays members children → ChildrenWellKeyed children
  | .nil => trivial
  | .cons first rest => ⟨first.wellKeyed, rest.wellKeyed⟩

end

end Node

end WireQuery
