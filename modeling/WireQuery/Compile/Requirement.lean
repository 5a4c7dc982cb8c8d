import WireQuery.Compile.VariableUses
import WireQuery.Name
import WireQuery.Spec.Basic

/-!
# Requirements on specifications

What a specification has to satisfy is a list of requirements, in the order of the tree: a group
before its children, a key before its node, and a call (its wire name, then its arguments) before
what the field selects. The first requirement that is not met gives the error. A reference to a
variable also records its use.
-/

namespace WireQuery
set_option autoImplicit false

inductive Requirement where
  /-- The group behind a path has children. -/
  | selects (path : List String) (children : List (String × Node))
  /-- The text is a name. -/
  | valid (role : NameRole) (name : String)
  /-- The reference names a variable, always with one descriptor. -/
  | reference (v : VariableRef)

namespace Requirement

def ofArgument (argument : String × VariableRef) : List Requirement :=
  [valid .argument argument.1, reference argument.2]

/-- The requirements on a call of the field under `key`, which is its wire name unless it has
another. -/
def ofCall (key : String) : Option Call → List Requirement
  | none => []
  | some call =>
    valid .wireField (call.wireName.getD key) :: call.arguments.flatMap ofArgument

mutual

/-- The requirements on a node, whose key ends the path to it. -/
def ofNode (path : List String) (key : String) : Node → List Requirement
  | .scalar call _ => ofCall key call
  | .group call children => ofCall key call ++ selects path children :: ofChildren path children

def ofChildren (path : List String) : List (String × Node) → List Requirement
  | [] => []
  | child :: rest =>
    valid .field child.1 :: ofNode (path ++ [child.1]) child.1 child.2 ++ ofChildren path rest

end

/-- All requirements on a specification and the name of its operation. -/
def ofGroup (operationName : Option String) (root : Group) : List Requirement :=
  (operationName.map (valid .operation)).toList ++
    selects [] root.children :: ofChildren [] root.children

def checkName (role : NameRole) (name : String) : Except CompileError Unit :=
  if Name.isValid name then .ok () else .error (.invalidName role name)

/-- The bare name of a reference. -/
def bareName (v : VariableRef) : Except CompileError String := do
  match v.bareName? with
  | none => .error (.missingSigil v.written)
  | some bare =>
    checkName .variable bare
    return bare

/-- Checks one requirement on top of the uses recorded so far. -/
def check (uses : VariableUses) : Requirement → Except CompileError VariableUses
  | selects path children =>
    if children.isEmpty then .error (.emptySelection path) else .ok uses
  | valid role name => do
    checkName role name
    return uses
  | reference v => do
    uses.record (← bareName v) v.descriptor

/-- Checks requirements in order, up to the first that is not met. -/
def checkAll (uses : VariableUses) (requirements : List Requirement) :
    Except CompileError VariableUses :=
  requirements.foldlM check uses

end Requirement

end WireQuery
