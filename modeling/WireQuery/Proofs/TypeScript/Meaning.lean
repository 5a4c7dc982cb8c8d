import WireQuery.Proofs.TypeScript.Reader
import WireQuery.Result.Value

/-!
# What TypeScript types admit

Which JSON values inhabit a type, with the names in it resolved among given declarations, and which
result values have exactly the members that the interfaces list.
-/

namespace WireQuery.TypeScript
set_option autoImplicit false

/-- The type with an argument in place of a type parameter. -/
def Ty.substitute (parameter : String) (argument : Ty) : Ty → Ty
  | string => string
  | number => number
  | boolean => boolean
  | unknown => unknown
  | null => null
  | reference name => if name = parameter then argument else reference name
  | applied name inner => applied name (substitute parameter argument inner)
  | array element => array (substitute parameter argument element)
  | union left right =>
    union (substitute parameter argument left) (substitute parameter argument right)

/-- The name belongs to this declaration and to no other. -/
def Resolves (declarations : List Declaration) (name : String) (d : Declaration) : Prop :=
  declarations.filter (fun other => other.name == name) = [d]

/-- An object inhabits an interface if every member that is there has its type and every member
that is not optional is there. -/
inductive Inhabits (declarations : List Declaration) : Ty → Json → Prop where
  | string (s : String) : Inhabits declarations .string (.string s)
  | number (n : Json.Number) : Inhabits declarations .number (.number n)
  | boolean (b : Bool) : Inhabits declarations .boolean (.bool b)
  | unknown (j : Json) : Inhabits declarations .unknown j
  | null : Inhabits declarations .null .null
  | array {element : Ty} {items : List Json}
      (each : ∀ item ∈ items, Inhabits declarations element item) :
      Inhabits declarations (.array element) (.array items)
  | left {a b : Ty} {j : Json} (h : Inhabits declarations a j) :
      Inhabits declarations (.union a b) j
  | right {a b : Ty} {j : Json} (h : Inhabits declarations b j) :
      Inhabits declarations (.union a b) j
  | interface {name : String} {members : List Member} {fields : List (String × Json)}
      (resolved : Resolves declarations name (.interface name members))
      (required : ∀ member ∈ members, member.optional = false →
        ∃ j, fields.lookup member.key = some j)
      (typed : ∀ member ∈ members, ∀ j, fields.lookup member.key = some j →
        Inhabits declarations member.ty j) :
      Inhabits declarations (.reference name) (.object fields)
  | applied {name parameter : String} {body argument : Ty} {j : Json}
      (resolved : Resolves declarations name (.typeAlias name parameter body))
      (h : Inhabits declarations (.substitute parameter argument body) j) :
      Inhabits declarations (.applied name argument) j

/-- A value in which nothing is an object that was built field by field. -/
inductive Objectless : Value → Prop where
  | null : Objectless .null
  | bool (b : Bool) : Objectless (.bool b)
  | integer (n : Int64) : Objectless (.integer n)
  | number (x : Binary64) : Objectless (.number x)
  | text (s : String) : Objectless (.text s)
  | raw (j : Json) : Objectless (.raw j)
  | list {values : List Value} (each : ∀ v ∈ values, Objectless v) : Objectless (.list values)

/-- Every object in the value has exactly the members of the interface at its place in the type, in
the same order. -/
inductive Exact (declarations : List Declaration) : Ty → Value → Prop where
  | objectless {ty : Ty} {v : Value} (h : Objectless v) : Exact declarations ty v
  | array {element : Ty} {values : List Value} (each : ∀ v ∈ values, Exact declarations element v) :
      Exact declarations (.array element) (.list values)
  | left {a b : Ty} {v : Value} (h : Exact declarations a v) : Exact declarations (.union a b) v
  | right {a b : Ty} {v : Value} (h : Exact declarations b v) : Exact declarations (.union a b) v
  | interface {name : String} {members : List Member} {fields : List (String × Value)}
      (resolved : Resolves declarations name (.interface name members))
      (keys : fields.map Prod.fst = members.map Member.key)
      (typed : ∀ entry ∈ members.zip fields, Exact declarations entry.1.ty entry.2.2) :
      Exact declarations (.reference name) (.object fields)
  | applied {name parameter : String} {body argument : Ty} {v : Value}
      (resolved : Resolves declarations name (.typeAlias name parameter body))
      (h : Exact declarations (.substitute parameter argument body) v) :
      Exact declarations (.applied name argument) v

/-- Among declarations with different names, every name belongs to one of them. -/
theorem resolves_of_mem {declarations : List Declaration}
    (distinct : (declarations.map Declaration.name).Nodup) {d : Declaration}
    (h : d ∈ declarations) : Resolves declarations d.name d := by
  unfold Resolves
  induction declarations with
  | nil => cases h
  | cons first rest ih =>
    obtain ⟨hfirst, hrest⟩ := List.nodup_cons.mp distinct
    rcases List.mem_cons.mp h with rfl | h
    · have hothers : rest.filter (fun other => other.name == d.name) = [] := by
        apply List.filter_eq_nil_iff.mpr
        intro other hother heq
        rw [← beq_iff_eq.mp heq] at hfirst
        exact hfirst (List.mem_map_of_mem hother)
      rw [List.filter_cons, if_pos (beq_self_eq_true _), hothers]
    · have hne : ¬(first.name == d.name) = true := by
        intro heq
        rw [beq_iff_eq.mp heq] at hfirst
        exact hfirst (List.mem_map_of_mem h)
      rw [List.filter_cons, if_neg hne, ih hrest h]

end WireQuery.TypeScript
