import WireQuery.Proofs.Compile.Placed

/-!
# The requirements in the order of places

The list of requirements that is checked holds what is required at the places of a tree, and
nothing else.
-/

namespace WireQuery.Requirement
set_option autoImplicit false

theorem mem_placedArguments {j : Nat} {arguments : List (String × VariableRef)} {place : Place}
    {r : Requirement} :
    (place, r) ∈ placedArguments j arguments ↔ ∃ k argument, arguments[k]? = some argument ∧
      (place = [j + k, 0] ∧ r = valid .argument argument.1 ∨
        place = [j + k, 1] ∧ r = reference argument.2) := by
  induction arguments generalizing j with
  | nil => simp [placedArguments]
  | cons first rest ih =>
    simp only [placedArguments, List.mem_cons, Prod.mk.injEq, ih]
    constructor
    · rintro (h | h | ⟨k, argument, hk, h⟩)
      · exact ⟨0, first, rfl, Or.inl h⟩
      · exact ⟨0, first, rfl, Or.inr h⟩
      · refine ⟨k + 1, argument, hk, ?_⟩
        rwa [show j + (k + 1) = j + 1 + k by omega]
    · rintro ⟨k, argument, hk, h⟩
      cases k with
      | zero =>
        cases hk
        rcases h with h | h
        · exact Or.inl h
        · exact Or.inr (Or.inl h)
      | succ k =>
        refine Or.inr (Or.inr ⟨k, argument, hk, ?_⟩)
        rwa [show j + 1 + k = j + (k + 1) by omega]

@[simp] theorem mem_under {step : Nat} {placed : List Placed} {place : Place} {r : Requirement} :
    (place, r) ∈ under step placed ↔ ∃ rest, place = step :: rest ∧ (rest, r) ∈ placed := by
  constructor
  · intro h
    obtain ⟨⟨rest, r'⟩, hmem, heq⟩ := List.mem_map.mp h
    cases heq
    exact ⟨rest, rfl, hmem⟩
  · rintro ⟨rest, rfl, hmem⟩
    exact List.mem_map.mpr ⟨(rest, r), hmem, rfl⟩

theorem mem_placedFrom {path : List String} {i : Nat} {children : List (String × Node)}
    {place : Place} {r : Requirement} :
    (place, r) ∈ placedFrom path i children ↔ ∃ k key node rest,
      children[k]? = some (key, node) ∧ place = (i + k + 1) :: rest ∧
        (rest, r) ∈ ([0], valid .field key) :: placedNode (path ++ [key]) key node := by
  induction children generalizing i with
  | nil => simp [placedFrom]
  | cons child others ih =>
    obtain ⟨key, node⟩ := child
    simp only [placedFrom, List.mem_append, mem_under, ih]
    constructor
    · rintro (⟨rest, hplace, hmem⟩ | ⟨k, key', node', rest, hk, hplace, hmem⟩)
      · exact ⟨0, key, node, rest, rfl, hplace, hmem⟩
      · refine ⟨k + 1, key', node', rest, hk, ?_, hmem⟩
        rwa [show i + (k + 1) + 1 = i + 1 + k + 1 by omega]
    · rintro ⟨k, key', node', rest, hk, hplace, hmem⟩
      cases k with
      | zero =>
        cases hk
        exact Or.inl ⟨rest, hplace, hmem⟩
      | succ k =>
        refine Or.inr ⟨k, key', node', rest, hk, ?_, hmem⟩
        rwa [show i + 1 + k + 1 = i + (k + 1) + 1 by omega]

theorem requiredAt_of_mem_placedCall {path : List String} {children : List (String × Node)}
    {i : Nat} {key : String} {node : Node} (child : children[i]? = some (key, node))
    {place : Place} {r : Requirement} (h : (place, r) ∈ placedCall key node.call?) :
    RequiredAt path children ((i + 1) :: place) r := by
  cases hcall : node.call? with
  | none =>
    rw [hcall] at h
    cases h
  | some call =>
    rw [hcall, placedCall, List.mem_cons, mem_under] at h
    rcases h with h | ⟨rest, rfl, hmem⟩
    · cases h
      exact .wireName child hcall
    · obtain ⟨k, ⟨argument, v⟩, hk, h⟩ := mem_placedArguments.mp hmem
      rw [Nat.zero_add] at h
      rcases h with ⟨rfl, rfl⟩ | ⟨rfl, rfl⟩
      · exact .argument child hcall hk
      · exact .reference child hcall hk

mutual

theorem requiredAt_of_mem_placedNode {path : List String} {children : List (String × Node)}
    {i : Nat} {key : String} {place : Place} {r : Requirement} :
    ∀ node : Node, children[i]? = some (key, node) →
      (place, r) ∈ placedNode (path ++ [key]) key node →
      RequiredAt path children ((i + 1) :: place) r
  | .scalar call descriptor, child, h => requiredAt_of_mem_placedCall child h
  | .group call inner, child, h => by
    rcases List.mem_append.mp h with h | h
    · exact requiredAt_of_mem_placedCall child h
    · obtain ⟨rest, rfl, hmem⟩ := mem_under.mp h
      refine .inside child ?_
      rcases List.mem_cons.mp hmem with hmem | hmem
      · cases hmem
        exact .selects _ inner
      · exact requiredAt_of_mem_placedFrom inner (fun k => by rw [Nat.zero_add]) hmem

/-- The children from the `i`-th on are the last children of a group. -/
theorem requiredAt_of_mem_placedFrom {path : List String} {children : List (String × Node)}
    {i : Nat} {place : Place} {r : Requirement} :
    ∀ last : List (String × Node), (∀ k, children[i + k]? = last[k]?) →
      (place, r) ∈ placedFrom path i last → RequiredAt path children place r
  | [], _, h => by cases h
  | (key, node) :: rest, hlast, h => by
    have child : children[i]? = some (key, node) := hlast 0
    rcases List.mem_append.mp h with h | h
    · obtain ⟨inChild, rfl, hmem⟩ := mem_under.mp h
      rcases List.mem_cons.mp hmem with hmem | hmem
      · cases hmem
        exact .key child
      · exact requiredAt_of_mem_placedNode node child hmem
    · refine requiredAt_of_mem_placedFrom rest (fun k => ?_) h
      rw [show i + 1 + k = i + (k + 1) by omega]
      exact hlast (k + 1)

end

theorem mem_placedCall_argument {key : String} {call : Call} {j : Nat} {argument : String}
    {v : VariableRef} (passes : call.arguments[j]? = some (argument, v)) :
    ([2, j, 0], valid .argument argument) ∈ placedCall key (some call) ∧
      ([2, j, 1], reference v) ∈ placedCall key (some call) := by
  constructor
  · refine List.mem_cons_of_mem _ (mem_under.mpr ⟨[j, 0], rfl, ?_⟩)
    exact mem_placedArguments.mpr ⟨j, _, passes, Or.inl ⟨by rw [Nat.zero_add], rfl⟩⟩
  · refine List.mem_cons_of_mem _ (mem_under.mpr ⟨[j, 1], rfl, ?_⟩)
    exact mem_placedArguments.mpr ⟨j, _, passes, Or.inr ⟨by rw [Nat.zero_add], rfl⟩⟩

theorem mem_placedNode_of_mem_placedCall {path : List String} {key : String} {node : Node}
    {call : Call} (calls : node.call? = some call) {x : Placed}
    (h : x ∈ placedCall key (some call)) : x ∈ placedNode path key node := by
  cases node with
  | scalar call' descriptor =>
    cases calls
    exact h
  | group call' inner =>
    cases calls
    exact List.mem_append_left _ h

theorem mem_placedGroup_of_child {path : List String} {children : List (String × Node)} {i : Nat}
    {key : String} {node : Node} (child : children[i]? = some (key, node)) {place : Place}
    {r : Requirement} (h : (place, r) ∈ placedNode (path ++ [key]) key node) :
    ((i + 1) :: place, r) ∈ placedGroup path children := by
  apply List.mem_cons_of_mem
  refine mem_placedFrom.mpr ⟨i, key, node, place, child, ?_, List.mem_cons_of_mem _ h⟩
  rw [Nat.zero_add]

theorem mem_placedGroup_of_requiredAt {path : List String} {children : List (String × Node)}
    {place : Place} {r : Requirement} (h : RequiredAt path children place r) :
    (place, r) ∈ placedGroup path children := by
  induction h with
  | selects path children => exact List.mem_cons_self
  | @key path children i key node child =>
    apply List.mem_cons_of_mem
    exact mem_placedFrom.mpr ⟨i, key, node, [0], child, by rw [Nat.zero_add], List.mem_cons_self⟩
  | wireName child calls =>
    exact mem_placedGroup_of_child child
      (mem_placedNode_of_mem_placedCall calls List.mem_cons_self)
  | argument child calls passes =>
    exact mem_placedGroup_of_child child
      (mem_placedNode_of_mem_placedCall calls (mem_placedCall_argument passes).1)
  | reference child calls passes =>
    exact mem_placedGroup_of_child child
      (mem_placedNode_of_mem_placedCall calls (mem_placedCall_argument passes).2)
  | inside child within ih =>
    refine mem_placedGroup_of_child child ?_
    exact List.mem_append_right _ (mem_under.mpr ⟨_, rfl, ih⟩)

@[simp] theorem mem_placedGroup {path : List String} {children : List (String × Node)}
    {place : Place} {r : Requirement} :
    (place, r) ∈ placedGroup path children ↔ RequiredAt path children place r := by
  constructor
  · intro h
    rcases List.mem_cons.mp h with h | h
    · cases h
      exact .selects path children
    · exact requiredAt_of_mem_placedFrom children (fun k => by rw [Nat.zero_add]) h
  · exact mem_placedGroup_of_requiredAt

end WireQuery.Requirement
