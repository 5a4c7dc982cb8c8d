import WireQuery.Proofs.Compile.Place
import WireQuery.Proofs.Compile.Uses

/-!
# Requirements that are met

What the requirements on a specification say about it once they have been checked. A part of the
tree has fewer requirements, and these are met as well.
-/

namespace WireQuery
set_option autoImplicit false

namespace Requirement

structure Met (requirements : List Requirement) : Prop where
  names : ∀ role name, valid role name ∈ requirements → Name.isValid name = true
  populated : ∀ path children, selects path children ∈ requirements → children ≠ []
  references : ∀ v, reference v ∈ requirements →
    ∃ bare, v.bareName? = some bare ∧ Name.isValid bare = true

variable {before rest requirements : List Requirement}

theorem Met.mono (h : Met requirements) (hsub : rest ⊆ requirements) : Met rest where
  names role name hname := h.names role name (hsub hname)
  populated path children hgroup := h.populated path children (hsub hgroup)
  references v hv := h.references v (hsub hv)

theorem Met.left (h : Met (before ++ rest)) : Met before :=
  h.mono (List.subset_append_left before rest)

theorem Met.right (h : Met (before ++ rest)) : Met rest :=
  h.mono (List.subset_append_right before rest)

theorem Met.tail {r : Requirement} (h : Met (r :: rest)) : Met rest :=
  h.mono (List.subset_cons_self r rest)

theorem met_of_checkAll {uses uses' : VariableUses} (h : checkAll uses requirements = .ok uses') :
    Met requirements := by
  have hstep : ∀ r ∈ requirements, ∃ s s', check s r = .ok s' := by
    intro r hr
    obtain ⟨before, rest, rfl⟩ := List.append_of_mem hr
    obtain ⟨s, s', -, hok⟩ := Outcome.exists_of_foldlM_eq_ok h
    exact ⟨s, s', hok⟩
  constructor
  case names =>
    intro role name hname
    obtain ⟨s, s', hok⟩ := hstep _ hname
    obtain ⟨_, hcheck, -⟩ := Outcome.bind_eq_ok.mp hok
    unfold checkName at hcheck
    split at hcheck
    · assumption
    · cases hcheck
  case populated =>
    rintro path children hgroup rfl
    obtain ⟨s, s', hok⟩ := hstep _ hgroup
    cases hok
  case references =>
    intro v hv
    obtain ⟨s, s', hok⟩ := hstep _ hv
    obtain ⟨bare, hbare, -⟩ := Outcome.bind_eq_ok.mp hok
    exact ⟨bare, bareName_eq_ok.mp hbare⟩

/-- The requirements on a call are among those on its node. -/
theorem ofCall_subset_ofNode (path : List String) (key : String) (node : Node) {call : Call}
    (calls : node.call? = some call) : ofCall key (some call) ⊆ ofNode path key node := by
  cases node with
  | scalar call' descriptor =>
    cases calls
    exact List.Subset.refl _
  | group call' children =>
    cases calls
    exact List.subset_append_left _ _

theorem mem_ofCall_argument (key : String) {call : Call} {argument : String × VariableRef}
    (hargument : argument ∈ call.arguments) :
    valid .argument argument.1 ∈ ofCall key (some call) ∧
      reference argument.2 ∈ ofCall key (some call) := by
  constructor
  · exact List.mem_cons_of_mem _ (List.mem_flatMap.mpr ⟨argument, hargument, List.mem_cons_self⟩)
  · exact List.mem_cons_of_mem _ (List.mem_flatMap.mpr
      ⟨argument, hargument, List.mem_cons_of_mem _ List.mem_cons_self⟩)

end Requirement

namespace Group

variable {root : Group} {operationName : Option String} {table : ScalarTable} {query : Query}

/-- What a compilation that succeeds goes through. -/
theorem exists_of_compile (h : root.compile operationName table = .ok query) :
    ∃ uses definitions,
      Requirement.checkAll .empty (Requirement.ofGroup operationName root) = .ok uses ∧
      uses.definitions = .ok definitions ∧
      query = ⟨⟨operationName, definitions, Node.selections root.children⟩,
        Node.shape table root.children, table⟩ := by
  obtain ⟨uses, huses, h⟩ := Outcome.bind_eq_ok.mp h
  obtain ⟨definitions, hdefinitions, h⟩ := Outcome.bind_eq_ok.mp h
  cases h
  exact ⟨uses, definitions, huses, hdefinitions, rfl⟩

theorem met_of_compile (h : root.compile operationName table = .ok query) :
    Requirement.Met (Requirement.ofGroup operationName root) := by
  obtain ⟨uses, definitions, huses, -⟩ := exists_of_compile h
  exact Requirement.met_of_checkAll huses

end Group

end WireQuery
