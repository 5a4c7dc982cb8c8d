import WireQuery.Compile.Basic
import WireQuery.Proofs.Outcome

/-!
# The descriptors of scalars

Other descriptors at the scalars and another table of kinds leave every refusal as it is.
-/

namespace WireQuery
set_option autoImplicit false

namespace Node

mutual

/-- The node with other descriptors of its scalars. -/
def redescribed (f : String → String) : Node → Node
  | scalar call descriptor => scalar call (f descriptor)
  | group call children => group call (redescribedAll f children)

def redescribedAll (f : String → String) : List (String × Node) → List (String × Node)
  | [] => []
  | child :: rest => (child.1, child.2.redescribed f) :: redescribedAll f rest

end

@[simp] theorem keys_redescribedAll (f : String → String) (children : List (String × Node)) :
    Keyed.keys (redescribedAll f children) = Keyed.keys children := by
  induction children with
  | nil => rfl
  | cons child rest ih => exact congrArg (child.1 :: ·) ih

mutual

theorem WellKeyed.redescribed (f : String → String) :
    ∀ {node : Node}, node.WellKeyed → (node.redescribed f).WellKeyed
  | scalar _ _, _ => trivial
  | group _ children, ⟨distinct, wellKeyed⟩ =>
    ⟨(congrArg List.Nodup (keys_redescribedAll f children)).mpr distinct,
      wellKeyed.redescribedAll f⟩

theorem ChildrenWellKeyed.redescribedAll (f : String → String) :
    ∀ {children : List (String × Node)}, ChildrenWellKeyed children →
      ChildrenWellKeyed (redescribedAll f children)
  | [], _ => trivial
  | _ :: _, ⟨wellKeyed, restWellKeyed⟩ =>
    ⟨wellKeyed.redescribed f, restWellKeyed.redescribedAll f⟩

end

end Node

namespace Requirement

variable {f : String → String}

@[simp] theorem check_selects_redescribed (uses : VariableUses) (path : List String)
    (children : List (String × Node)) :
    check uses (selects path (Node.redescribedAll f children)) =
      check uses (selects path children) := by
  cases children <;> rfl

@[simp] theorem checkAll_append (uses : VariableUses) (before rest : List Requirement) :
    checkAll uses (before ++ rest) = checkAll uses before >>= fun uses => checkAll uses rest :=
  List.foldlM_append

@[simp] theorem checkAll_cons (uses : VariableUses) (r : Requirement) (rest : List Requirement) :
    checkAll uses (r :: rest) = check uses r >>= fun uses => checkAll uses rest :=
  List.foldlM_cons

mutual

theorem checkAll_redescribed (path : List String) (key : String) :
    ∀ (node : Node) (uses : VariableUses),
      checkAll uses (ofNode path key (node.redescribed f)) = checkAll uses (ofNode path key node)
  | .scalar call descriptor, uses => rfl
  | .group call children, uses => by
    simp [Node.redescribed, ofNode, checkAll_redescribedAll path children]

@[simp] theorem checkAll_redescribedAll (path : List String) :
    ∀ (children : List (String × Node)) (uses : VariableUses),
      checkAll uses (ofChildren path (Node.redescribedAll f children)) =
        checkAll uses (ofChildren path children)
  | [], uses => rfl
  | (key, node) :: rest, uses => by
    simp [Node.redescribedAll, ofChildren, checkAll_redescribed (path ++ [key]) key node,
      checkAll_redescribedAll path rest]

end

end Requirement

namespace Group

def redescribed (f : String → String) (root : Group) : Group :=
  ⟨Node.redescribedAll f root.children, root.wellKeyed.redescribed f⟩

theorem checkAll_ofGroup_redescribed (f : String → String) (operationName : Option String)
    (root : Group) :
    Requirement.checkAll .empty (Requirement.ofGroup operationName (root.redescribed f)) =
      Requirement.checkAll .empty (Requirement.ofGroup operationName root) := by
  simp [Requirement.ofGroup, redescribed]

theorem compile_redescribed_eq_error (f : String → String) (operationName : Option String)
    (root : Group) (table table' : ScalarTable) (e : CompileError) :
    (root.redescribed f).compile operationName table' = .error e ↔
      root.compile operationName table = .error e := by
  unfold Group.compile
  rw [checkAll_ofGroup_redescribed]
  simp only [Outcome.bind_eq_error, reduceCtorEq, and_false, exists_false, or_false, pure,
    Except.pure]

end Group

end WireQuery
