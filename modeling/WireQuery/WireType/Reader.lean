import WireQuery.Name
import WireQuery.WireType.Basic

/-!
# Reading type descriptors

A descriptor is read from the outside in: first a final `!`, then one pair of enclosing brackets,
until a name is left. A refused descriptor carries the outermost defect.
-/

namespace WireQuery
set_option autoImplicit false

namespace WireType

/-- Why a descriptor is no type. -/
inductive Defect where
  | empty
  | nestedNonNull
  | unbalancedBrackets
  | unclosedList
  | invalidName
  | tooDeep
  deriving DecidableEq, Repr

def Defect.message : Defect → String
  | empty => "empty type"
  | nestedNonNull => "non-null modifier applied twice"
  | unbalancedBrackets => "unbalanced brackets"
  | unclosedList => "unclosed list type"
  | invalidName => "invalid type name"
  | tooDeep => "list types nested too deeply"

/-- A refused descriptor, as it was written. -/
structure Malformed where
  descriptor : String
  defect : Defect
  deriving DecidableEq, Repr

def Malformed.message (m : Malformed) : String :=
  "malformed type descriptor `" ++ m.descriptor ++ "`: " ++ m.defect.message

/-- The most list modifiers that one descriptor may nest. -/
def listLimit : Nat := 32

/-- Whether every closing bracket closes an earlier one and none of them, nor of the `opened`
brackets before, stays open. -/
def balanced : (opened : Nat) → List Char → Bool
  | opened, [] => opened == 0
  | opened, c :: cs =>
    if c = '[' then balanced (opened + 1) cs
    else if c = ']' then
      match opened with
      | 0 => false
      | stillOpened + 1 => balanced stillOpened cs
    else balanced opened cs

/-- The characters before a final `c`. -/
def stripLast? (c : Char) (cs : List Char) : Option (List Char) :=
  if cs.getLast? = some c then some cs.dropLast else none

theorem length_of_stripLast? {c : Char} {cs rest : List Char} (h : stripLast? c cs = some rest) :
    rest.length + 1 = cs.length := by
  unfold stripLast? at h
  split at h
  · next hl =>
    cases h
    have : cs ≠ [] := by
      rintro rfl
      simp at hl
    have := List.length_pos_iff.mpr this
    rw [List.length_dropLast]
    omega
  · cases h

/-- Reads the type that stands inside `depth` lists. -/
def readFrom (depth : Nat) (cs : List Char) : Except Defect WireType :=
  if cs.isEmpty then .error .empty
  else
    match _hb : stripLast? '!' cs with
    | some rest =>
      if rest.getLast? = some '!' then .error .nestedNonNull
      else nonNull <$> readFrom depth rest
    | none =>
      if cs.head? = some '[' then
        match _he : stripLast? ']' cs.tail with
        | none => .error .unclosedList
        | some inner =>
          if listLimit < depth + 1 then .error .tooDeep
          else if balanced 0 inner then list <$> readFrom (depth + 1) inner
          else .error .unbalancedBrackets
      else if cs.any (fun c => c == '[' || c == ']') then .error .unbalancedBrackets
      else if Name.isValidChars cs then .ok (named (String.ofList cs))
      else .error .invalidName
termination_by cs.length
decreasing_by
  · have := length_of_stripLast? _hb
    omega
  · have := length_of_stripLast? _he
    rw [List.length_tail] at this
    omega

/-- Reads a descriptor such as `[[ID!]]!`. -/
def read (descriptor : String) : Except Malformed WireType :=
  match readFrom 0 descriptor.toList with
  | .ok type => .ok type
  | .error defect => .error { descriptor, defect }

/-- A refusal names the descriptor as it was written. -/
theorem descriptor_of_read {descriptor : String} {m : Malformed}
    (h : read descriptor = .error m) : m.descriptor = descriptor := by
  unfold read at h
  split at h
  · cases h
  · cases h
    rfl

end WireType

end WireQuery
