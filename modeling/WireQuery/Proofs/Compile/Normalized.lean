import WireQuery.Proofs.Compile.Place
import WireQuery.Proofs.Compile.Redescribed

/-!
# Specifications in normal form

A wire name that is the key itself says nothing, and no more does a call without a wire name and
without arguments. In its normal form a specification has neither, and it compiles alike.
-/

namespace WireQuery
set_option autoImplicit false

/-- The call, unless it says nothing. -/
def Call.unlessPlain (call : Call) : Option Call := if call = plain then none else some call

/-- A call under a key that is no wire name of its own. -/
def Call.normalized (key : String) (call : Call) : Option Call :=
  unlessPlain { call with wireName := if call.wireName = some key then none else call.wireName }

namespace Node

mutual

/-- The node under its key with no call that says nothing. -/
def normalized (key : String) : Node → Node
  | scalar call descriptor => scalar (call.bind (Call.normalized key)) descriptor
  | group call children =>
    group (call.bind (Call.normalized key)) (normalizedChildren children)

def normalizedChildren : List (String × Node) → List (String × Node)
  | [] => []
  | child :: rest => (child.1, child.2.normalized child.1) :: normalizedChildren rest

end

end Node

@[simp] theorem Node.keys_normalizedChildren (children : List (String × Node)) :
    Keyed.keys (normalizedChildren children) = Keyed.keys children := by
  induction children with
  | nil => rfl
  | cons child rest ih => exact congrArg (child.1 :: ·) ih

mutual

theorem Node.WellKeyed.normalized (key : String) :
    ∀ {node : Node}, node.WellKeyed → (node.normalized key).WellKeyed
  | .scalar _ _, _ => trivial
  | .group _ children, ⟨distinct, wellKeyed⟩ =>
    ⟨(congrArg List.Nodup (Node.keys_normalizedChildren children)).mpr distinct,
      wellKeyed.normalizedChildren⟩

theorem Node.ChildrenWellKeyed.normalizedChildren :
    ∀ {children : List (String × Node)}, Node.ChildrenWellKeyed children →
      Node.ChildrenWellKeyed (Node.normalizedChildren children)
  | [], _ => trivial
  | (key, _) :: _, ⟨wellKeyed, restWellKeyed⟩ =>
    ⟨wellKeyed.normalized key, restWellKeyed.normalizedChildren⟩

end

def Group.normalized (root : Group) : Group :=
  ⟨Node.normalizedChildren root.children, root.wellKeyed.normalized ""⟩

namespace Call

@[simp] theorem getD_unlessPlain (call : Call) : call.unlessPlain.getD .plain = call := by
  unfold unlessPlain
  split
  · next h => exact h.symm
  · rfl

end Call

namespace Node

@[simp] theorem call?_normalized (key : String) (node : Node) :
    (node.normalized key).call? = node.call?.bind (Call.normalized key) := by
  cases node <;> rfl

@[simp] theorem field_normalized (key : String) (node : Node) :
    (node.normalized key).field key = node.field key := by
  simp only [field, wireName, callOrPlain_eq, call?_normalized]
  cases node.call? with
  | none => rfl
  | some call => by_cases hname : call.wireName = some key <;> simp [Call.normalized, hname]

mutual

theorem selection_normalized (key : String) :
    ∀ node : Node, (node.normalized key).selection key = node.selection key
  | scalar call descriptor =>
    congrArg Selection.leaf (field_normalized key (scalar call descriptor))
  | group call children =>
    congrArg₂ Selection.nested (field_normalized key (group call children))
      (selections_normalized children)

@[simp] theorem selections_normalized : ∀ children : List (String × Node),
    selections (normalizedChildren children) = selections children
  | [] => rfl
  | (key, node) :: rest =>
    congrArg₂ List.cons (selection_normalized key node) (selections_normalized rest)

end

mutual

theorem content_normalized (table : ScalarTable) (key : String) :
    ∀ node : Node, (node.normalized key).content table = node.content table
  | scalar _ _ => rfl
  | group _ children => congrArg Content.nested (shape_normalized table children)

@[simp] theorem shape_normalized (table : ScalarTable) : ∀ children : List (String × Node),
    shape table (normalizedChildren children) = shape table children
  | [] => rfl
  | (key, node) :: rest => by
    rw [normalizedChildren, shape, shape, field_normalized, content_normalized table key node,
      shape_normalized table rest]

end

end Node

namespace Requirement

theorem check_valid {role : NameRole} {name : String} (h : Name.isValid name = true)
    (uses : VariableUses) : check uses (valid role name) = .ok uses := by
  rw [check, checkName, if_pos h]
  rfl

theorem checkAll_unlessPlain {key : String} (hkey : Name.isValid key = true) (call : Call)
    (uses : VariableUses) :
    checkAll uses (ofCall key call.unlessPlain) = checkAll uses (ofCall key (some call)) := by
  unfold Call.unlessPlain
  split
  · next hplain =>
    rw [hplain, ofCall, ofCall, Call.plain, List.flatMap_nil, checkAll_cons, Option.getD_none,
      check_valid hkey]
    rfl
  · rfl

theorem checkAll_ofCall_normalized {key : String} (hkey : Name.isValid key = true)
    (call : Option Call) (uses : VariableUses) :
    checkAll uses (ofCall key (call.bind (Call.normalized key))) =
      checkAll uses (ofCall key call) := by
  cases call with
  | none => rfl
  | some call =>
    have hwire : (if call.wireName = some key then none else call.wireName).getD key =
        call.wireName.getD key := by
      by_cases h : call.wireName = some key <;> simp [h]
    rw [Option.bind_some, Call.normalized, checkAll_unlessPlain hkey, ofCall, ofCall, hwire]

@[simp] theorem check_selects_normalized (uses : VariableUses) (path : List String)
    (children : List (String × Node)) :
    check uses (selects path (Node.normalizedChildren children)) =
      check uses (selects path children) := by
  cases children <;> rfl

mutual

theorem checkAll_normalized (path : List String) {key : String}
    (hkey : Name.isValid key = true) :
    ∀ (node : Node) (uses : VariableUses),
      checkAll uses (ofNode path key (node.normalized key)) = checkAll uses (ofNode path key node)
  | .scalar call descriptor, uses => checkAll_ofCall_normalized hkey call uses
  | .group call children, uses => by
    simp [Node.normalized, ofNode, checkAll_ofCall_normalized hkey,
      checkAll_normalizedChildren path children]

@[simp] theorem checkAll_normalizedChildren (path : List String) :
    ∀ (children : List (String × Node)) (uses : VariableUses),
      checkAll uses (ofChildren path (Node.normalizedChildren children)) =
        checkAll uses (ofChildren path children)
  | [], uses => rfl
  | (key, node) :: rest, uses => by
    simp only [Node.normalizedChildren, ofChildren, List.cons_append, checkAll_append,
      checkAll_cons]
    -- The key is checked before the call, so a wire name that is the key is never refused as such.
    by_cases hkey : Name.isValid key = true
    · simp only [checkAll_normalized (path ++ [key]) hkey node,
        checkAll_normalizedChildren path rest]
    · simp only [check, checkName, if_neg hkey]
      rfl

end

end Requirement

/-- A specification and its normal form compile alike. -/
theorem Group.compile_normalized (root : Group) (operationName : Option String)
    (table : ScalarTable) :
    root.normalized.compile operationName table = root.compile operationName table := by
  have hchecks : Requirement.checkAll .empty (Requirement.ofGroup operationName root.normalized) =
      Requirement.checkAll .empty (Requirement.ofGroup operationName root) := by
    simp [Requirement.ofGroup, normalized]
  unfold compile
  rw [hchecks]
  simp [normalized]

end WireQuery
