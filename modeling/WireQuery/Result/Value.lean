import WireQuery.Json.Printer

/-!
# Result values

A decoded response. Objects keep their fields in the specification's order. Raw values are passed
through as they were received.
-/

namespace WireQuery
set_option autoImplicit false

inductive Value where
  | null
  | bool (value : Bool)
  | integer (value : Int64)
  | number (value : Binary64)
  | text (value : String)
  | list (items : List Value)
  | object (fields : List (String × Value))
  | raw (value : Json)

namespace Value

/-- The field of an object under a key; the first of several. -/
def get? : Value → String → Option Value
  | object fields, key => fields.lookup key
  | _, _ => none

def isNull : Value → Bool
  | null => true
  | _ => false

def text? : Value → Option String
  | text s => some s
  | _ => none

def list? : Value → Option (List Value)
  | list items => some items
  | _ => none

/-- A number as JSON, which has no form for those that are not finite. -/
def numberToJson : Binary64 → Json
  | .finite x => .number (.float x)
  | .infinite _ | .nan => .null

mutual

/-- The value as JSON, fields in order. -/
def toJson : Value → Json
  | null => .null
  | bool b => .bool b
  | integer n => .number (.integer (.ofInt64 n))
  | number x => numberToJson x
  | text s => .string s
  | list items => .array (itemsToJson items)
  | object fields => .object (fieldsToJson fields)
  | raw j => j

def itemsToJson : List Value → List Json
  | [] => []
  | item :: rest => item.toJson :: itemsToJson rest

def fieldsToJson : List (String × Value) → List (String × Json)
  | [] => []
  | field :: rest => (field.1, field.2.toJson) :: fieldsToJson rest

end

def write (v : Value) (style : TextStyle) : String := v.toJson.write style

end Value

end WireQuery
