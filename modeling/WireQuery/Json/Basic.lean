import WireQuery.Keyed
import WireQuery.Number.Binary64

/-!
# JSON values

A value keeps what its text says: members in order, repeated names included. `normalize` gives the
value that a text stands for, where each object has its members by ascending name and a repeated
name has its last value.
-/

namespace WireQuery
set_option autoImplicit false

namespace Json

/-- An integer that 64 bits hold, signed or unsigned. -/
structure Integer where
  value : Int
  least : -0x8000000000000000 ≤ value
  below : value < 0x10000000000000000
  deriving DecidableEq, Repr

namespace Integer

def ofInt? (n : Int) : Option Integer :=
  if h : -0x8000000000000000 ≤ n ∧ n < 0x10000000000000000 then some ⟨n, h.1, h.2⟩ else none

def ofInt64 (n : Int64) : Integer :=
  ⟨n.toInt, n.le_toInt, by have := n.toInt_lt; omega⟩

/-- The integer as a signed word, if it fits one. -/
def toInt64? (n : Integer) : Option Int64 :=
  if n.value < 0x8000000000000000 then some (Int64.ofInt n.value) else none

@[simp] theorem toInt64?_ofInt64 (n : Int64) : (ofInt64 n).toInt64? = some n := by
  have hlt : n.toInt < 0x8000000000000000 := by
    have := n.toInt_lt
    omega
  unfold toInt64? ofInt64
  rw [if_pos hlt, Int64.ofInt_toInt]

end Integer

/-- A number is an integer if it is written as one and fits 64 bits. -/
inductive Number where
  | integer (n : Integer)
  | float (x : Binary64.Finite)
  deriving DecidableEq, Repr

end Json

inductive Json where
  | null
  | bool (value : Bool)
  | number (value : Json.Number)
  | string (value : String)
  | array (items : List Json)
  | object (members : List (String × Json))
  deriving Repr, BEq

namespace Json

/-- What messages call a value. -/
inductive Kind where
  | null
  | boolean
  | number
  | outOfRangeInteger
  | integer
  | string
  | array
  | object
  deriving DecidableEq, Repr

def Kind.text : Kind → String
  | null => "null"
  | boolean => "boolean"
  | number => "number"
  | outOfRangeInteger => "out-of-range integer"
  | integer => "integer"
  | string => "string"
  | array => "array"
  | object => "object"

/-- The kind of a value. An integer beyond the signed 64-bit range has a kind of its own. -/
def kind : Json → Kind
  | .null => .null
  | .bool _ => .boolean
  | .number (.float _) => .number
  | .number (.integer n) => if n.toInt64?.isSome then .integer else .outOfRangeInteger
  | .string _ => .string
  | .array _ => .array
  | .object _ => .object

def isNull : Json → Bool
  | .null => true
  | _ => false

/-- The binary64 number nearest to a number. -/
def Number.toBinary64 : Number → Binary64
  | .integer n => .ofInt n.value
  | .float x => .finite x

mutual

/-- The value with the members of each object by ascending name, repeated names resolved. -/
def normalize : Json → Json
  | .null => .null
  | .bool b => .bool b
  | .number n => .number n
  | .string s => .string s
  | .array items => .array (normalizeItems items)
  | .object members => .object (Keyed.sort (normalizeMembers members))

def normalizeItems : List Json → List Json
  | [] => []
  | item :: rest => item.normalize :: normalizeItems rest

def normalizeMembers : List (String × Json) → List (String × Json)
  | [] => []
  | member :: rest => (member.1, member.2.normalize) :: normalizeMembers rest

end

end Json

end WireQuery
