import WireQuery.Json.Reader
import WireQuery.Scalar.Table

/-!
# Reading scalar tables

A table file is a JSON object of kinds by type name, which extend the builtin scalars. A kind is
written by its name, or as an object whose one member has the kind's name and the value null.
-/

namespace WireQuery
set_option autoImplicit false

namespace ScalarKind

open Json

def ofWord (word : String) : Except Error ScalarKind :=
  match ofName? word with
  | some kind => .ok kind
  | none => .error (.unknownWord word (all.map name))

/-- The kind whose name follows an opening quote. -/
def readName (size : Nat) : Reader ScalarKind := fun cs => do
  let (word, rest) ← readString size cs
  return (← ofWord word, rest)

/-- The null that a kind may carry. -/
def readUnit (size : Nat) (cs : List Char) : Except Error (List Char) :=
  match skipBlanks cs with
  | 'n' :: rest => readWord ['u', 'l', 'l'] rest
  | cs => wrongForm size "unit" cs

/-- The kind inside an object, after its opening brace. -/
def readWrapped (size : Nat) : Reader ScalarKind := fun cs => do
  let (kind, rest) ←
    match skipBlanks cs with
    | '"' :: rest => readName size rest
    | cs => wrongForm size "variant identifier" cs
  let rest ← readUnit size (← readColon rest)
  match skipBlanks rest with
  | [] => refuse .endInObject
  | c :: rest => if c = '\x7d' then return (kind, rest) else refuse .expectedValue

def read (size : Nat) : Reader ScalarKind := fun cs =>
  match skipBlanks cs with
  | [] => refuse .endInValue
  | '"' :: rest => readName size rest
  | '\x7b' :: rest => readWrapped size rest
  | _ => refuse .expectedValue

end ScalarKind

namespace ScalarTable

/-- The builtin scalars, overridden and extended by the object that a text spells. -/
def read (text : String) : Except Json.Error ScalarTable := do
  let pairs ← Json.readText (fun size => Json.readMap size (ScalarKind.read size)) text
  return builtin.extend pairs

end ScalarTable

end WireQuery
