import WireQuery.Compile.Error
import WireQuery.Keyed

/-!
# Uses of variables

The variables that one specification uses with their descriptors, in the order of first use. A
variable keeps its first descriptor; a use with another one is refused. Descriptors are compared
as they are written.
-/

namespace WireQuery
set_option autoImplicit false

structure VariableUses where
  entries : List (String × String)
  deriving DecidableEq, Repr

namespace VariableUses

def empty : VariableUses := ⟨[]⟩

def get? (uses : VariableUses) (name : String) : Option String := uses.entries.lookup name

/-- Records a use of a variable. -/
def record (uses : VariableUses) (name descriptor : String) : Except CompileError VariableUses :=
  match uses.get? name with
  | none => .ok ⟨uses.entries ++ [(name, descriptor)]⟩
  | some first =>
    if first = descriptor then .ok uses else .error (.typeConflict name first descriptor)

def size (uses : VariableUses) : Nat := uses.entries.length

def isEmpty (uses : VariableUses) : Bool := uses.entries.isEmpty

end VariableUses

end WireQuery
