import WireQuery.Proofs.Compile.Place

/-!
# Requirements with their places

The list of requirements that is checked, each requirement with its place. The places ascend, so
none occurs twice.
-/

namespace WireQuery.Requirement
set_option autoImplicit false

/-- A requirement with the place where it stands. -/
abbrev Placed := Place × Requirement

/-- Puts a list below a step. -/
def under (step : Nat) (placed : List Placed) : List Placed :=
  placed.map fun x => (step :: x.1, x.2)

def placedArguments (j : Nat) : List (String × VariableRef) → List Placed
  | [] => []
  | argument :: rest =>
    ([j, 0], valid .argument argument.1) :: ([j, 1], reference argument.2) ::
      placedArguments (j + 1) rest

def placedCall (key : String) : Option Call → List Placed
  | none => []
  | some call =>
    ([1], valid .wireField (call.wireName.getD key)) :: under 2 (placedArguments 0 call.arguments)

mutual

def placedNode (path : List String) (key : String) : Node → List Placed
  | .scalar call _ => placedCall key call
  | .group call children =>
    placedCall key call ++ under 3 (([0], selects path children) :: placedFrom path 0 children)

/-- The requirements of the children from the `i`-th on. -/
def placedFrom (path : List String) (i : Nat) : List (String × Node) → List Placed
  | [] => []
  | child :: rest =>
    under (i + 1) (([0], valid .field child.1) :: placedNode (path ++ [child.1]) child.1 child.2) ++
      placedFrom path (i + 1) rest

end

def placedGroup (path : List String) (children : List (String × Node)) : List Placed :=
  ([0], selects path children) :: placedFrom path 0 children

@[simp] theorem map_snd_under (step : Nat) (placed : List Placed) :
    (under step placed).map Prod.snd = placed.map Prod.snd := by
  simp [under]

@[simp] theorem map_snd_placedArguments (j : Nat) (arguments : List (String × VariableRef)) :
    (placedArguments j arguments).map Prod.snd = arguments.flatMap ofArgument := by
  induction arguments generalizing j with
  | nil => rfl
  | cons argument rest ih => simp [placedArguments, ofArgument, ih]

@[simp] theorem map_snd_placedCall (key : String) (call : Option Call) :
    (placedCall key call).map Prod.snd = ofCall key call := by
  cases call with
  | none => rfl
  | some call => simp [placedCall, ofCall]

mutual

theorem map_snd_placedNode (path : List String) (key : String) :
    ∀ node : Node, (placedNode path key node).map Prod.snd = ofNode path key node
  | .scalar call _ => map_snd_placedCall key call
  | .group call children => by
    simp [placedNode, ofNode, map_snd_placedFrom path 0 children]

theorem map_snd_placedFrom (path : List String) (i : Nat) :
    ∀ children : List (String × Node),
      (placedFrom path i children).map Prod.snd = ofChildren path children
  | [] => rfl
  | (key, node) :: rest => by
    simp [placedFrom, ofChildren, map_snd_placedNode (path ++ [key]) key node,
      map_snd_placedFrom path (i + 1) rest]

end

@[simp] theorem map_snd_placedGroup (path : List String) (children : List (String × Node)) :
    (placedGroup path children).map Prod.snd =
      selects path children :: ofChildren path children := by
  simp [placedGroup, map_snd_placedFrom]

def Ascending (placed : List Placed) : Prop := placed.Pairwise fun x y => x.1 < y.1

/-- Every place starts with a step from `n` on. -/
def StartsFrom (n : Nat) (placed : List Placed) : Prop :=
  ∀ x ∈ placed, ∃ step place, x.1 = step :: place ∧ n ≤ step

theorem startsFrom_under {n step : Nat} (h : n ≤ step) (placed : List Placed) :
    StartsFrom n (under step placed) := by
  intro x hx
  obtain ⟨y, -, rfl⟩ := List.mem_map.mp hx
  exact ⟨step, y.1, rfl, h⟩

theorem startsFrom_append {n : Nat} {xs ys : List Placed} (hx : StartsFrom n xs)
    (hy : StartsFrom n ys) : StartsFrom n (xs ++ ys) := by
  intro x h
  rcases List.mem_append.mp h with h | h
  · exact hx x h
  · exact hy x h

theorem StartsFrom.mono {n m : Nat} (h : n ≤ m) {xs : List Placed} (hx : StartsFrom m xs) :
    StartsFrom n xs := by
  intro x hm
  obtain ⟨step, place, heq, hstep⟩ := hx x hm
  exact ⟨step, place, heq, Nat.le_trans h hstep⟩

theorem ascending_under {step : Nat} {placed : List Placed} (h : Ascending placed) :
    Ascending (under step placed) := by
  apply List.pairwise_map.mpr
  exact h.imp fun hxy => List.cons_lt_cons_iff.mpr (Or.inr ⟨rfl, hxy⟩)

/-- What stands below a step comes before all that starts with later steps. -/
theorem ascending_append {n : Nat} {xs ys : List Placed} (hx : Ascending xs) (hy : Ascending ys)
    (hbelow : ∀ x ∈ xs, ∃ step place, x.1 = step :: place ∧ step < n) (hfrom : StartsFrom n ys) :
    Ascending (xs ++ ys) := by
  apply List.pairwise_append.mpr
  refine ⟨hx, hy, ?_⟩
  intro x hxm y hym
  obtain ⟨step, place, hxp, hstep⟩ := hbelow x hxm
  obtain ⟨step', place', hyp, hstep'⟩ := hfrom y hym
  rw [hxp, hyp]
  exact List.cons_lt_cons_iff.mpr (Or.inl (by omega))

theorem ascending_cons {n : Nat} {place : Place} {r : Requirement} {ys : List Placed} {step : Nat}
    (hstep : step < n) (hy : Ascending ys) (hfrom : StartsFrom n ys) :
    Ascending ((step :: place, r) :: ys) := by
  apply List.pairwise_cons.mpr
  refine ⟨?_, hy⟩
  intro y hym
  obtain ⟨step', place', hyp, hstep'⟩ := hfrom y hym
  rw [hyp]
  exact List.cons_lt_cons_iff.mpr (Or.inl (by omega))

theorem below_under {step n : Nat} (h : step < n) (placed : List Placed) :
    ∀ x ∈ under step placed, ∃ step' place, x.1 = step' :: place ∧ step' < n := by
  intro x hx
  obtain ⟨y, -, rfl⟩ := List.mem_map.mp hx
  exact ⟨step, y.1, rfl, h⟩

theorem startsFrom_placedArguments (j : Nat) (arguments : List (String × VariableRef)) :
    StartsFrom j (placedArguments j arguments) := by
  induction arguments generalizing j with
  | nil => intro x hx; cases hx
  | cons argument rest ih =>
    intro x hx
    rcases List.mem_cons.mp hx with rfl | hx
    · exact ⟨j, [0], rfl, Nat.le_refl j⟩
    · rcases List.mem_cons.mp hx with rfl | hx
      · exact ⟨j, [1], rfl, Nat.le_refl j⟩
      · exact (ih (j + 1)).mono (Nat.le_succ j) x hx

theorem ascending_placedArguments (j : Nat) (arguments : List (String × VariableRef)) :
    Ascending (placedArguments j arguments) := by
  induction arguments generalizing j with
  | nil => exact .nil
  | cons argument rest ih =>
    have hrest := startsFrom_placedArguments (j + 1) rest
    have hreference : Ascending (([j, 1], reference argument.2) :: placedArguments (j + 1) rest) :=
      ascending_cons (Nat.lt_succ_self j) (ih (j + 1)) hrest
    apply List.pairwise_cons.mpr
    refine ⟨?_, hreference⟩
    intro y hy
    rcases List.mem_cons.mp hy with rfl | hy
    · exact List.cons_lt_cons_iff.mpr (Or.inr ⟨rfl, by decide⟩)
    · obtain ⟨step, place, heq, hstep⟩ := hrest y hy
      rw [heq]
      exact List.cons_lt_cons_iff.mpr (Or.inl (by omega))

theorem startsFrom_placedCall (key : String) (call : Option Call) :
    StartsFrom 1 (placedCall key call) := by
  cases call with
  | none => intro x hx; cases hx
  | some call =>
    intro x hx
    rcases List.mem_cons.mp hx with rfl | hx
    · exact ⟨1, [], rfl, Nat.le_refl 1⟩
    · exact startsFrom_under (by omega) _ x hx

theorem placedCall_below (key : String) (call : Option Call) :
    ∀ x ∈ placedCall key call, ∃ step place, x.1 = step :: place ∧ step < 3 := by
  cases call with
  | none => intro x hx; cases hx
  | some call =>
    intro x hx
    rcases List.mem_cons.mp hx with rfl | hx
    · exact ⟨1, [], rfl, by omega⟩
    · exact below_under (by omega) _ x hx

theorem ascending_placedCall (key : String) (call : Option Call) :
    Ascending (placedCall key call) := by
  cases call with
  | none => exact .nil
  | some call =>
    exact ascending_cons (n := 2) (by omega)
      (ascending_under (ascending_placedArguments 0 call.arguments))
      (startsFrom_under (Nat.le_refl 2) _)

theorem startsFrom_placedNode (path : List String) (key : String) (node : Node) :
    StartsFrom 1 (placedNode path key node) := by
  cases node with
  | scalar call descriptor => exact startsFrom_placedCall key call
  | group call children =>
    exact startsFrom_append (startsFrom_placedCall key call) (startsFrom_under (by omega) _)

theorem startsFrom_placedFrom (path : List String) (i : Nat) (children : List (String × Node)) :
    StartsFrom (i + 1) (placedFrom path i children) := by
  induction children generalizing i with
  | nil => intro x hx; cases hx
  | cons child rest ih =>
    obtain ⟨key, node⟩ := child
    exact startsFrom_append (startsFrom_under (Nat.le_refl _) _)
      ((ih (i + 1)).mono (Nat.le_succ _))

mutual

theorem ascending_placedNode (path : List String) (key : String) :
    ∀ node : Node, Ascending (placedNode path key node)
  | .scalar call _ => ascending_placedCall key call
  | .group call children =>
    ascending_append (ascending_placedCall key call)
      (ascending_under (ascending_cons (Nat.zero_lt_one) (ascending_placedFrom path 0 children)
        (startsFrom_placedFrom path 0 children)))
      (placedCall_below key call) (startsFrom_under (Nat.le_refl 3) _)

theorem ascending_placedFrom (path : List String) (i : Nat) :
    ∀ children : List (String × Node), Ascending (placedFrom path i children)
  | [] => .nil
  | (key, node) :: rest =>
    ascending_append
      (ascending_under (ascending_cons (Nat.zero_lt_one)
        (ascending_placedNode (path ++ [key]) key node) (startsFrom_placedNode _ key node)))
      (ascending_placedFrom path (i + 1) rest)
      (below_under (Nat.lt_succ_self (i + 1)) _) (startsFrom_placedFrom path (i + 1) rest)

end

theorem ascending_placedGroup (path : List String) (children : List (String × Node)) :
    Ascending (placedGroup path children) :=
  ascending_cons (Nat.zero_lt_one) (ascending_placedFrom path 0 children)
    (startsFrom_placedFrom path 0 children)

end WireQuery.Requirement
