import WireQuery.Proofs.Compile.Place
import WireQuery.Proofs.Reordered

/-!
# Specifications in another order

Specifications are equal exactly if one is the other with its keys and arguments in another order,
at any levels. Both then hold the same keys and pass the same arguments somewhere.
-/

namespace WireQuery
set_option autoImplicit false

/-- The same call with its arguments in another order. -/
structure Call.Reordered (a b : Call) : Prop where
  wireName : a.wireName = b.wireName
  arguments : a.arguments.Perm b.arguments

namespace Node

/-- The same node with keys and arguments in another order, at any levels. -/
inductive Reordered : Node → Node → Prop where
  | scalar {call call' : Option Call} (descriptor : String)
      (calls : Option.Rel Call.Reordered call call') :
      Reordered (.scalar call descriptor) (.scalar call' descriptor)
  | group {call call' : Option Call} {children children' : List (String × Node)}
      (calls : Option.Rel Call.Reordered call call')
      (each : Multiset.Rel (Keyed.Matching Reordered) (children : Multiset (String × Node))
        (children' : Multiset (String × Node))) :
      Reordered (.group call children) (.group call' children')

end Node

def Group.Reordered (root root' : Group) : Prop :=
  Keyed.Reordered Node.Reordered root.children root'.children

@[simp] theorem Call.same_iff {a b : Call} : a.same b = true ↔ a.Reordered b := by
  simp only [same, Bool.and_eq_true, beq_iff_eq, List.all_eq_true]
  rw [and_assoc, ← Keyed.perm_iff_lookup a.distinct b.distinct]
  exact ⟨fun h => ⟨h.1, h.2⟩, fun h => ⟨h.wireName, h.arguments⟩⟩

namespace Node

theorem induction {motive : Node → Prop}
    (scalar : ∀ call descriptor, motive (scalar call descriptor))
    (group : ∀ call children, (∀ child ∈ children, motive child.2) → motive (group call children))
    (node : Node) : motive node := by
  refine @Node.rec motive (fun children => ∀ child ∈ children, motive child.2)
    (fun child => motive child.2) scalar group ?_ ?_ (fun _ _ h => h) node
  · exact fun child hchild => absurd hchild List.not_mem_nil
  · intro child children hchild hchildren
    exact List.forall_mem_cons.mpr ⟨hchild, hchildren⟩

@[simp] theorem sameCall_iff {call call' : Option Call} :
    sameCall call call' = true ↔ Option.Rel Call.Reordered call call' := by
  cases call with
  | none =>
    cases call' with
    | none => exact ⟨fun _ => .none, fun _ => rfl⟩
    | some b => exact ⟨nofun, nofun⟩
  | some a =>
    cases call' with
    | none => exact ⟨nofun, nofun⟩
    | some b =>
      rw [sameCall, Call.same_iff]
      constructor
      · exact .some
      · rintro ⟨hab⟩
        exact hab

theorem sameIn_iff {children others : List (String × Node)} :
    sameIn children others = true ↔ ∀ child ∈ children,
      ∃ other, others.lookup child.1 = some other ∧ child.2.same other = true := by
  induction children with
  | nil => simp [sameIn]
  | cons child rest ih =>
    rw [sameIn, Bool.and_eq_true, ih, List.forall_mem_cons]
    cases others.lookup child.1 <;> simp

/-- Equality ignores the order of keys and of arguments, and nothing else. -/
theorem same_iff_reordered {node node' : Node} (h : node.WellKeyed) (h' : node'.WellKeyed) :
    node.same node' = true ↔ node.Reordered node' := by
  induction node using Node.induction generalizing node' with
  | scalar call descriptor =>
    cases node' with
    | group call' children' => exact ⟨nofun, nofun⟩
    | scalar call' descriptor' =>
      rw [same, Bool.and_eq_true, beq_iff_eq, sameCall_iff]
      constructor
      · rintro ⟨calls, rfl⟩
        exact .scalar descriptor calls
      · intro reordered
        cases reordered with
        | scalar _ calls => exact ⟨calls, rfl⟩
  | group call children ih =>
    cases node' with
    | scalar call' descriptor' => exact ⟨nofun, nofun⟩
    | group call' children' =>
      obtain ⟨hdistinct, hchildren⟩ := h
      obtain ⟨hdistinct', hchildren'⟩ := h'
      have heach : ∀ {key : String} {child child' : Node}, (key, child) ∈ children →
          (key, child') ∈ children' → (child.same child' = true ↔ child.Reordered child') := by
        intro key child child' hmem hmem'
        exact ih _ hmem (childrenWellKeyed_iff.mp hchildren _ hmem)
          (childrenWellKeyed_iff.mp hchildren' _ hmem')
      have hlookup := Keyed.reordered_iff_lookup (R := fun a b => a.same b = true) hdistinct
        hdistinct'
      rw [same, Bool.and_eq_true, Bool.and_eq_true, beq_iff_eq, sameCall_iff, sameIn_iff,
        and_assoc, ← hlookup]
      constructor
      · rintro ⟨calls, each⟩
        exact .group calls (each.mono fun hmem hmem' => (heach hmem hmem').mp)
      · intro reordered
        cases reordered with
        | group calls each =>
          exact ⟨calls, Keyed.Reordered.mono each fun hmem hmem' => (heach hmem hmem').mpr⟩

end Node

theorem Call.Reordered.symm {a b : Call} (h : a.Reordered b) : b.Reordered a :=
  ⟨h.wireName.symm, h.arguments.symm⟩

namespace Node.Reordered

theorem calls {node node' : Node} (h : node.Reordered node') :
    Option.Rel Call.Reordered node.call? node'.call? := by
  cases h with
  | scalar _ calls => exact calls
  | group calls _ => exact calls

theorem exists_call {node node' : Node} (h : node.Reordered node') {call : Call}
    (calls : node.call? = some call) :
    ∃ call', node'.call? = some call' ∧ call.Reordered call' := by
  have hcalls := h.calls
  rw [calls] at hcalls
  generalize node'.call? = call' at hcalls ⊢
  cases hcalls with
  | some hcall => exact ⟨_, rfl, hcall⟩

theorem symm {node node' : Node} (h : node.Reordered node') : node'.Reordered node := by
  have hcalls : ∀ {call call' : Option Call}, Option.Rel Call.Reordered call call' →
      Option.Rel Call.Reordered call' call := by
    intro call call' hcall
    cases hcall with
    | none => exact .none
    | some hcall => exact .some hcall.symm
  induction node using Node.induction generalizing node' with
  | scalar call descriptor =>
    cases h with
    | scalar _ calls => exact .scalar descriptor (hcalls calls)
  | group call children ih =>
    cases h with
    | group calls each =>
      refine .group (hcalls calls) (Keyed.Reordered.flip ?_)
      exact Keyed.Reordered.mono each fun hmem _ hchild => ih _ hmem hchild

end Node.Reordered

/-- Keys lead to corresponding groups in both. -/
theorem LeadsTo.reordered {children children' found : List (String × Node)} {path : List String}
    (leads : LeadsTo children path found)
    (h : Keyed.Reordered Node.Reordered children children') :
    ∃ found', LeadsTo children' path found' ∧ Keyed.Reordered Node.Reordered found found' := by
  induction leads generalizing children' with
  | here children => exact ⟨children', .here children', h⟩
  | inside child _ ih =>
    obtain ⟨node', child', hnode⟩ := h.exists_mem child
    cases hnode with
    | group _ each =>
      obtain ⟨found', leads', hfound⟩ := ih each
      exact ⟨found', .inside child' leads', hfound⟩

namespace Group.Reordered

variable {root root' : Group}

theorem node (h : root.Reordered root') :
    (Node.group none root.children).Reordered (.group none root'.children) :=
  .group .none h

theorem symm (h : root.Reordered root') : root'.Reordered root :=
  (Keyed.Reordered.mono h fun _ _ hnode => hnode.symm).flip

theorem holds (h : root.Reordered root') {key : String} {node : Node}
    (hnode : root.Holds key node) : ∃ node', root'.Holds key node' ∧ node.Reordered node' := by
  obtain ⟨path, children, leads, child⟩ := hnode
  obtain ⟨children', leads', hchildren⟩ := leads.reordered h
  obtain ⟨node', child', hnode'⟩ := hchildren.exists_mem child
  exact ⟨node', ⟨path, children', leads', child'⟩, hnode'⟩

theorem passes (h : root.Reordered root') {argument : String} {v : VariableRef}
    (passes : root.Passes argument v) : root'.Passes argument v := by
  obtain ⟨key, node, call, hnode, calls, hmem⟩ := passes
  obtain ⟨node', hnode', reordered⟩ := h.holds hnode
  obtain ⟨call', calls', hcall⟩ := reordered.exists_call calls
  exact ⟨key, node', call', hnode', calls', hcall.arguments.mem_iff.mp hmem⟩

theorem passes_iff (h : root.Reordered root') {argument : String} {v : VariableRef} :
    root.Passes argument v ↔ root'.Passes argument v :=
  ⟨h.passes, h.symm.passes⟩

end Group.Reordered

/-- Specifications are equal exactly if one is the other reordered. -/
theorem Group.same_iff_reordered {root root' : Group} :
    root.same root' = true ↔ root.Reordered root' := by
  rw [same, Node.same_iff_reordered root.wellKeyed root'.wellKeyed]
  constructor
  · intro reordered
    cases reordered with
    | group _ each => exact each
  · exact Reordered.node

end WireQuery
