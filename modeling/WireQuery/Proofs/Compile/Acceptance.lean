import Mathlib.Tactic.ByContra
import WireQuery.Proofs.Compile.FirstViolation
import WireQuery.Proofs.Compile.Redescribed

/-!
# Accepted specifications

A specification compiles exactly if it is compilable, whatever the order of its parts. Otherwise
the error is that of the first violation. The descriptors of scalars change neither.
-/

namespace WireQuery
set_option autoImplicit false

/-- A requirement on a group as such or on one of its children, without what is inside them. -/
inductive OwnRequirement (path : List String) (children : List (String × Node)) :
    Requirement → Prop where
  | selects : OwnRequirement path children (.selects path children)
  | key {key : String} {node : Node} (child : (key, node) ∈ children) :
      OwnRequirement path children (.valid .field key)
  | wireName {key : String} {node : Node} {call : Call} (child : (key, node) ∈ children)
      (calls : node.call? = some call) :
      OwnRequirement path children (.valid .wireField (call.wireName.getD key))
  | argument {key : String} {node : Node} {call : Call} {argument : String} {v : VariableRef}
      (child : (key, node) ∈ children) (calls : node.call? = some call)
      (passes : (argument, v) ∈ call.arguments) :
      OwnRequirement path children (.valid .argument argument)
  | reference {key : String} {node : Node} {call : Call} {argument : String} {v : VariableRef}
      (child : (key, node) ∈ children) (calls : node.call? = some call)
      (passes : (argument, v) ∈ call.arguments) : OwnRequirement path children (.reference v)

theorem OwnRequirement.exists_requiredAt {path : List String} {children : List (String × Node)}
    {r : Requirement} (h : OwnRequirement path children r) :
    ∃ place, RequiredAt path children place r := by
  cases h with
  | selects => exact ⟨_, .selects path children⟩
  | key child =>
    obtain ⟨i, hi⟩ := List.mem_iff_getElem?.mp child
    exact ⟨_, .key hi⟩
  | wireName child calls =>
    obtain ⟨i, hi⟩ := List.mem_iff_getElem?.mp child
    exact ⟨_, .wireName hi calls⟩
  | argument child calls passes =>
    obtain ⟨i, hi⟩ := List.mem_iff_getElem?.mp child
    obtain ⟨j, hj⟩ := List.mem_iff_getElem?.mp passes
    exact ⟨_, .argument hi calls hj⟩
  | reference child calls passes =>
    obtain ⟨i, hi⟩ := List.mem_iff_getElem?.mp child
    obtain ⟨j, hj⟩ := List.mem_iff_getElem?.mp passes
    exact ⟨_, .reference hi calls hj⟩

theorem RequiredAt.exists_own {path : List String} {children : List (String × Node)}
    {place : Place} {r : Requirement} (h : RequiredAt path children place r) :
    ∃ keys found, LeadsTo children keys found ∧ OwnRequirement (path ++ keys) found r := by
  induction h with
  | selects path children =>
    exact ⟨[], children, .here children, (List.append_nil path).symm ▸ .selects⟩
  | @key path children i key node child =>
    exact ⟨[], children, .here children, .key (List.mem_of_getElem? child)⟩
  | @wireName path children i key node call child calls =>
    exact ⟨[], children, .here children, .wireName (List.mem_of_getElem? child) calls⟩
  | @argument path children i j key node call argument v child calls passes =>
    exact ⟨[], children, .here children,
      .argument (List.mem_of_getElem? child) calls (List.mem_of_getElem? passes)⟩
  | @reference path children i j key node call argument v child calls passes =>
    exact ⟨[], children, .here children,
      .reference (List.mem_of_getElem? child) calls (List.mem_of_getElem? passes)⟩
  | @inside path children inner i key call place r child within ih =>
    obtain ⟨keys, found, hleads, hown⟩ := ih
    rw [List.append_assoc] at hown
    exact ⟨key :: keys, found, .inside (List.mem_of_getElem? child) hleads, hown⟩

/-- What is required somewhere in a group is a requirement on a group that keys lead to. -/
theorem exists_requiredAt_iff {path : List String} {children : List (String × Node)}
    {r : Requirement} :
    (∃ place, RequiredAt path children place r) ↔
      ∃ keys found, LeadsTo children keys found ∧ OwnRequirement (path ++ keys) found r := by
  constructor
  · rintro ⟨place, h⟩
    exact h.exists_own
  · rintro ⟨keys, found, hleads, hown⟩
    induction hleads generalizing path with
    | here children =>
      rw [List.append_nil] at hown
      exact hown.exists_requiredAt
    | @inside children inner found key call keys child within ih =>
      obtain ⟨i, hi⟩ := List.mem_iff_getElem?.mp child
      obtain ⟨place, hplace⟩ := @ih (path ++ [key]) (by rwa [List.append_assoc])
      exact ⟨_, .inside hi hplace⟩

namespace Group

variable {root : Group} {operationName : Option String}

theorem exists_reference_iff {v : VariableRef} :
    (∃ place, RequiredAt [] root.children place (.reference v)) ↔
      ∃ argument, root.Passes argument v := by
  rw [exists_requiredAt_iff]
  constructor
  · rintro ⟨keys, found, hleads, hown⟩
    cases hown with
    | reference child calls passes =>
      exact ⟨_, _, _, _, ⟨keys, found, hleads, child⟩, calls, passes⟩
  · rintro ⟨argument, key, node, call, ⟨keys, found, hleads, child⟩, calls, passes⟩
    exact ⟨keys, found, hleads, .reference child calls passes⟩

/-- The references among the requirements are those that pass an argument. -/
theorem reference_mem_ofGroup {v : VariableRef} :
    .reference v ∈ Requirement.ofGroup operationName root ↔ ∃ argument, root.Passes argument v := by
  rw [← exists_reference_iff, ofGroup_eq]
  constructor
  · intro h
    rcases List.mem_append.mp h with h | h
    · cases operationName with
      | none => cases h
      | some name => simp at h
    · obtain ⟨⟨place, r⟩, hplaced, rfl⟩ := List.mem_map.mp h
      exact ⟨place, mem_placed.mp hplaced⟩
  · rintro ⟨place, required⟩
    exact List.mem_append_right _ (List.mem_map_of_mem (f := Prod.snd) (mem_placed.mpr required))

/-- A compilable specification has no fault in its tree. -/
theorem Compilable.not_fault (h : Compilable operationName root) {place : Place} {r : Requirement}
    (required : RequiredAt [] root.children place r) (e : CompileError) : ¬ root.Fault r e := by
  obtain ⟨keys, found, hleads, hown⟩ := exists_requiredAt_iff.mp ⟨place, required⟩
  intro hfault
  cases hown with
  | selects =>
    cases hfault
    exact h.populated keys [] hleads rfl
  | key child =>
    cases hfault with
    | name invalid =>
      rw [h.keys _ _ ⟨keys, found, hleads, child⟩] at invalid
      cases invalid
  | wireName child calls =>
    cases hfault with
    | name invalid =>
      rw [h.wireNames _ _ _ ⟨keys, found, hleads, child⟩ calls] at invalid
      cases invalid
  | argument child calls passes =>
    cases hfault with
    | name invalid =>
      rw [h.arguments _ _ ⟨_, _, _, ⟨keys, found, hleads, child⟩, calls, passes⟩] at invalid
      cases invalid
  | @reference key node call argument v child calls passes =>
    have hpasses : root.Passes argument v := ⟨_, _, _, ⟨keys, found, hleads, child⟩, calls, passes⟩
    obtain ⟨bare, hwritten, hvalid⟩ := h.references argument v hpasses
    have hbare := VariableRef.bareName?_eq_some.mpr hwritten
    cases hfault with
    | sigil missing => simp [hbare] at missing
    | bareName named invalid =>
      rw [hbare] at named
      cases named
      simp [hvalid] at invalid
    | conflict named valid known differs =>
      obtain ⟨place', v', ⟨required', named'⟩, rfl, -⟩ := known
      obtain ⟨argument', hpasses'⟩ := exists_reference_iff.mp ⟨place', required'⟩
      exact differs (h.agreement _ _ _ _ _ hpasses' hpasses
        (VariableRef.bareName?_eq_some.mp named') (VariableRef.bareName?_eq_some.mp named))

theorem Compilable.not_violation (h : Compilable operationName root) (place : Place)
    (e : CompileError) : ¬ Violation operationName root place e := by
  intro hviolation
  cases hviolation with
  | operation given invalid =>
    rw [h.operation _ given] at invalid
    cases invalid
  | tree required fault => exact h.not_fault required e fault
  | descriptor required refused =>
    obtain ⟨argument, hpasses⟩ := exists_reference_iff.mp ⟨_, required⟩
    obtain ⟨type, hread⟩ := h.descriptors _ _ hpasses
    rw [hread] at refused
    cases refused

theorem exists_firstDescriptor {place : Place} {v : VariableRef} {bare : String}
    (required : RequiredAt [] root.children place (.reference v))
    (hbare : v.bareName? = some bare) : ∃ first, root.FirstDescriptor bare first := by
  have hmention : (bare, v.descriptor) ∈ Requirement.mentions (root.placed.map Prod.snd) :=
    List.mem_filterMap.mpr ⟨.reference v,
      List.mem_map_of_mem (f := Prod.snd) (mem_placed.mpr required),
      Requirement.mention?_reference.mpr ⟨hbare, rfl⟩⟩
  obtain ⟨first, hfirst⟩ := Keyed.exists_lookup_of_mem hmention
  exact ⟨first, firstDescriptor_iff.mpr hfirst⟩

/-- A specification without violations. -/
def Clean (operationName : Option String) (root : Group) : Prop :=
  ∀ place e, ¬ Violation operationName root place e

namespace Clean

variable (clean : Clean operationName root)
include clean

theorem valid {role : NameRole} {name : String}
    (h : ∃ place, RequiredAt [] root.children place (.valid role name)) :
    Name.isValid name = true := by
  obtain ⟨place, required⟩ := h
  by_contra invalid
  exact clean _ _ (.tree required (.name (Bool.eq_false_iff.mpr invalid)))

theorem exists_bareName {argument : String} {v : VariableRef} (passes : root.Passes argument v) :
    ∃ bare, v.bareName? = some bare ∧ Name.isValid bare = true := by
  obtain ⟨place, required⟩ := exists_reference_iff.mpr ⟨argument, passes⟩
  cases hbare : v.bareName? with
  | none => exact absurd (.tree required (.sigil hbare)) (clean _ _)
  | some bare =>
    refine ⟨bare, rfl, ?_⟩
    by_contra invalid
    exact clean _ _ (.tree required (.bareName hbare (Bool.eq_false_iff.mpr invalid)))

theorem descriptor_eq_first {argument bare first : String} {v : VariableRef}
    (passes : root.Passes argument v) (hbare : v.bareName? = some bare)
    (known : root.FirstDescriptor bare first) : v.descriptor = first := by
  obtain ⟨place, required⟩ := exists_reference_iff.mpr ⟨argument, passes⟩
  obtain ⟨bare', hbare', hvalid⟩ := clean.exists_bareName passes
  rw [hbare] at hbare'
  cases hbare'
  by_contra differs
  exact clean _ _ (.tree required (.conflict hbare hvalid known (Ne.symm differs)))

theorem descriptors_agree {argument argument' bare : String} {v v' : VariableRef}
    (passes : root.Passes argument v) (passes' : root.Passes argument' v')
    (hbare : v.bareName? = some bare) (hbare' : v'.bareName? = some bare) :
    v.descriptor = v'.descriptor := by
  obtain ⟨place, required⟩ := exists_reference_iff.mpr ⟨argument, passes⟩
  obtain ⟨first, known⟩ := exists_firstDescriptor required hbare
  rw [clean.descriptor_eq_first passes hbare known, clean.descriptor_eq_first passes' hbare' known]

theorem exists_type {argument : String} {v : VariableRef} (passes : root.Passes argument v) :
    ∃ type, WireType.read v.descriptor = .ok type := by
  obtain ⟨place, required⟩ := exists_reference_iff.mpr ⟨argument, passes⟩
  cases hread : WireType.read v.descriptor with
  | ok type => exact ⟨type, rfl⟩
  | error malformed => exact absurd (.descriptor required hread) (clean _ _)

theorem compilable : Compilable operationName root := by
  constructor
  case operation =>
    intro name given
    by_contra invalid
    exact clean _ _ (.operation given (Bool.eq_false_iff.mpr invalid))
  case populated =>
    rintro path children hleads rfl
    obtain ⟨place, required⟩ := exists_requiredAt_iff.mpr ⟨path, [], hleads, .selects⟩
    exact clean _ _ (.tree required (.empty path))
  case keys =>
    rintro key node ⟨path, children, hleads, child⟩
    exact clean.valid (exists_requiredAt_iff.mpr ⟨path, children, hleads, .key child⟩)
  case wireNames =>
    rintro key node call ⟨path, children, hleads, child⟩ calls
    exact clean.valid (exists_requiredAt_iff.mpr ⟨path, children, hleads, .wireName child calls⟩)
  case arguments =>
    rintro argument v ⟨key, node, call, ⟨path, children, hleads, child⟩, calls, passes⟩
    exact clean.valid
      (exists_requiredAt_iff.mpr ⟨path, children, hleads, .argument child calls passes⟩)
  case references =>
    intro argument v passes
    obtain ⟨bare, hbare, hvalid⟩ := clean.exists_bareName passes
    exact ⟨bare, VariableRef.bareName?_eq_some.mp hbare, hvalid⟩
  case agreement =>
    intro bare argument argument' v v' passes passes' hwritten hwritten'
    exact clean.descriptors_agree passes passes' (VariableRef.bareName?_eq_some.mpr hwritten)
      (VariableRef.bareName?_eq_some.mpr hwritten')
  case descriptors => exact fun argument v passes => clean.exists_type passes

end Clean

theorem compilable_of_compile {table : ScalarTable} {query : Query}
    (h : root.compile operationName table = .ok query) : Compilable operationName root :=
  Clean.compilable (not_violation_of_compile h)

theorem compile_of_compilable (h : Compilable operationName root) (table : ScalarTable) :
    ∃ query, root.compile operationName table = .ok query := by
  cases hcompile : root.compile operationName table with
  | ok query => exact ⟨query, rfl⟩
  | error e =>
    obtain ⟨place, hviolation, -⟩ := exists_firstViolation_of_compile hcompile
    exact absurd hviolation (h.not_violation place e)

/-- A specification compiles exactly if it is compilable; otherwise the error is that of the first
violation, and an empty selection is named by the keys that lead to it. The descriptors of scalars
and the scalar table have no part in it. -/
theorem compile_outcome (operationName : Option String) (root : Group) (table : ScalarTable) :
    ((∃ query, root.compile operationName table = .ok query) ↔ Compilable operationName root) ∧
    (∀ e, root.compile operationName table = .error e ↔
      ∃ place, FirstViolation operationName root place e) ∧
    (∀ path, root.compile operationName table = .error (.emptySelection path) →
      LeadsTo root.children path [] ∧
        (CompileError.emptySelection path).message = "empty selection set at " ++
          if path = [] then "query root" else "`" ++ ".".intercalate path ++ "`") ∧
    (∀ f table' e, (root.redescribed f).compile operationName table' = .error e ↔
      root.compile operationName table = .error e) := by
  refine ⟨⟨?_, ?_⟩, ?_, ?_, ?_⟩
  · rintro ⟨query, h⟩
    exact compilable_of_compile h
  · intro h
    exact compile_of_compilable h table
  · intro e
    exact compile_eq_error_iff
  · intro path h
    obtain ⟨place, hviolation, -⟩ := exists_firstViolation_of_compile h
    constructor
    · cases hviolation with
      | tree required fault =>
        cases fault
        obtain ⟨keys, found, hleads, hown⟩ := exists_requiredAt_iff.mp ⟨_, required⟩
        rw [List.nil_append] at hown
        cases hown
        exact hleads
    · cases path <;> rfl
  · intro f table' e
    exact compile_redescribed_eq_error f operationName root table table' e

/-- An order whose lines select nothing, before a key that is no name. -/
def emptyLines : Group :=
  .ofList [("order", .group none [("lines", .group none [])]), ("9b", .scalar none "ID")]

theorem compile_emptyLines :
    emptyLines.compile none .builtin = .error (.emptySelection ["order", "lines"]) ∧
      LeadsTo emptyLines.children ["order", "lines"] [] ∧
      (CompileError.emptySelection ["order", "lines"]).message =
        "empty selection set at `order.lines`" ∧
      ∃ place, FirstViolation none emptyLines place (.emptySelection ["order", "lines"]) := by
  have refused : emptyLines.compile none .builtin = .error (.emptySelection ["order", "lines"]) :=
    rfl
  obtain ⟨-, hfirst, hempty, -⟩ := compile_outcome none emptyLines .builtin
  obtain ⟨hleads, -⟩ := hempty _ refused
  exact ⟨refused, hleads, by decide, (hfirst _).mp refused⟩

end Group

end WireQuery
