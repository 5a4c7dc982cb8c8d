import Mathlib.Data.List.Induction
import WireQuery.WireType.Reader

/-!
# The form of wire types

Three measures of a type decide whether a descriptor can spell it: the name at its core, how many
lists it nests, and whether a non-null modifier stands on another one. Types that are built from
a name by the two modifiers are exactly those where no non-null modifier stands on another.
-/

namespace WireQuery.WireType
set_option autoImplicit false

/-- The number of list modifiers. -/
def listDepth : WireType → Nat
  | named _ => 0
  | list element => element.listDepth + 1
  | nonNull inner => inner.listDepth

/-- No non-null modifier stands directly on another one. -/
def Canonical : WireType → Prop
  | named _ => True
  | list element => element.Canonical
  | nonNull inner => inner.isNonNull = false ∧ inner.Canonical

/-- What a descriptor can spell. -/
structure Expressible (t : WireType) : Prop where
  name : Name.isValid t.baseName = true
  canonical : t.Canonical
  depth : t.listDepth ≤ listLimit

/-- A step by which a type is built around another one. -/
inductive Wrapping where
  | list
  | required
  deriving DecidableEq, Repr

namespace Wrapping

def apply : Wrapping → WireType → WireType
  | list, t => .list t
  | required, t => t.required

end Wrapping

/-- The type that wrappings make of a named type, the first wrapping innermost. -/
def built (name : String) (wrappings : List Wrapping) : WireType :=
  wrappings.foldl (fun t wrapping => wrapping.apply t) (named name)

theorem required_of_not_isNonNull {t : WireType} (h : t.isNonNull = false) :
    t.required = nonNull t := by
  cases t with
  | nonNull inner => cases h
  | named name => rfl
  | list element => rfl

@[simp] theorem baseName_required (t : WireType) : t.required.baseName = t.baseName := by
  cases t <;> rfl

@[simp] theorem listDepth_required (t : WireType) : t.required.listDepth = t.listDepth := by
  cases t <;> rfl

theorem canonical_required {t : WireType} (h : t.Canonical) : t.required.Canonical := by
  cases t with
  | named name => exact ⟨rfl, trivial⟩
  | list element => exact ⟨rfl, h⟩
  | nonNull inner => exact h

@[simp] theorem baseName_apply (w : Wrapping) (t : WireType) :
    (w.apply t).baseName = t.baseName := by
  cases w with
  | list => rfl
  | required => simp [Wrapping.apply]

theorem canonical_apply (w : Wrapping) {t : WireType} (h : t.Canonical) :
    (w.apply t).Canonical := by
  cases w with
  | list => exact h
  | required => exact canonical_required h

@[simp] theorem listDepth_apply (w : Wrapping) (t : WireType) :
    (w.apply t).listDepth = t.listDepth + [w].count .list := by
  cases w with
  | list => rfl
  | required => simp [Wrapping.apply]

theorem built_append (name : String) (ws : List Wrapping) (w : Wrapping) :
    built name (ws ++ [w]) = w.apply (built name ws) := by
  simp [built]

@[simp] theorem baseName_built (name : String) (ws : List Wrapping) :
    (built name ws).baseName = name := by
  induction ws using List.reverseRecOn with
  | nil => rfl
  | append_singleton ws w ih => simp [built_append, ih]

theorem canonical_built (name : String) (ws : List Wrapping) : (built name ws).Canonical := by
  induction ws using List.reverseRecOn with
  | nil => exact trivial
  | append_singleton ws w ih =>
    rw [built_append]
    exact canonical_apply w ih

@[simp] theorem listDepth_built (name : String) (ws : List Wrapping) :
    (built name ws).listDepth = ws.count .list := by
  induction ws using List.reverseRecOn with
  | nil => rfl
  | append_singleton ws w ih => simp [built_append, ih]

/-- Every type without doubled non-null modifiers is built from its name. -/
theorem exists_built {t : WireType} (h : t.Canonical) : ∃ ws, t = built t.baseName ws := by
  induction t with
  | named name => exact ⟨[], rfl⟩
  | list element ih =>
    obtain ⟨ws, hws⟩ := ih h
    refine ⟨ws ++ [.list], ?_⟩
    rw [built_append]
    exact congrArg list hws
  | nonNull inner ih =>
    obtain ⟨ws, hws⟩ := ih h.2
    refine ⟨ws ++ [.required], ?_⟩
    rw [built_append]
    change nonNull inner = (built inner.baseName ws).required
    rw [← hws, required_of_not_isNonNull h.1]

/-- A type that is built from a name by at most as many lists as a descriptor may nest. -/
theorem expressible_built {name : String} (hname : Name.isValid name = true) {ws : List Wrapping}
    (hdepth : ws.count .list ≤ listLimit) : (built name ws).Expressible where
  name := by simpa using hname
  canonical := canonical_built name ws
  depth := by simpa using hdepth

end WireQuery.WireType
