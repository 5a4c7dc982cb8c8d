/-!
# Pascal case

The words of a text are the pieces between `_`, `-` and `.`. Each word gets a capital first
letter. A word without a small letter is lowered after its first letter, any other word keeps
its inner capitals. Only ASCII letters change.
-/

namespace WireQuery
set_option autoImplicit false

namespace PascalCase

def isSeparator (c : Char) : Bool := c == '_' || c == '-' || c == '.'

/-- The pieces between separators, empty pieces included. -/
def words : List Char → List (List Char)
  | [] => [[]]
  | c :: cs =>
    if isSeparator c then
      [] :: words cs
    else
      match words cs with
      | [] => [[c]]
      | word :: rest => (c :: word) :: rest

/-- A word with its capital, which is empty for an empty word. -/
def capitalize : List Char → List Char
  | [] => []
  | c :: cs =>
    c.toUpper :: (if (c :: cs).any Char.isLower then cs else cs.map Char.toLower)

end PascalCase

/-- The text in Pascal case: `order_lines` becomes `OrderLines`, `SKU_CODE` becomes `SkuCode`. -/
def pascalCase (s : String) : String :=
  String.ofList ((PascalCase.words s.toList).flatMap PascalCase.capitalize)

end WireQuery
