import WireQuery.Json.Error

/-!
# Reading JSON

A reader takes a value from the front of a text and leaves the rest. Loops over members, items and
the characters of a string take at most `size` steps, where `size` bounds the length of the text;
nesting is bounded by the number of brackets that may still be opened. The loop over members is
general in what stands after the colon, so an object of a given form reports an unfit member
before it looks at the text behind it.
-/

namespace WireQuery.Json
set_option autoImplicit false

/-- Takes a value from the front of a text. -/
abbrev Reader (α : Type) := List Char → Except Error (α × List Char)

def refuse {α : Type} (defect : TextDefect) : Except Error α := .error (.text defect)

def isBlank (c : Char) : Bool := c == ' ' || c == '\t' || c == '\n' || c == '\r'

def skipBlanks (cs : List Char) : List Char := cs.dropWhile isBlank

/-- The rest of a word such as `null`. -/
def readWord : (word : List Char) → List Char → Except Error (List Char)
  | [], cs => .ok cs
  | _ :: _, [] => refuse .endInValue
  | w :: word, c :: cs => if c = w then readWord word cs else refuse .expectedWord

/-- The value of a hexadecimal digit in either case. -/
def hexValue? (c : Char) : Option Nat :=
  if '0' ≤ c ∧ c ≤ '9' then some (c.toNat - '0'.toNat)
  else if 'a' ≤ c ∧ c ≤ 'f' then some (c.toNat - 'a'.toNat + 10)
  else if 'A' ≤ c ∧ c ≤ 'F' then some (c.toNat - 'A'.toNat + 10)
  else none

/-- Four hexadecimal digits. The text has to go on for four bytes of UTF-8 at least. -/
def readHex4 (cs : List Char) : Except Error (Nat × List Char) :=
  match cs with
  | a :: b :: c :: d :: rest =>
    match hexValue? a, hexValue? b, hexValue? c, hexValue? d with
    | some a, some b, some c, some d => .ok (((a * 16 + b) * 16 + c) * 16 + d, rest)
    | _, _, _, _ => refuse .invalidEscape
  | short =>
    if (String.ofList short).utf8ByteSize < 4 then refuse .endInString else refuse .invalidEscape

/-- The second half of a surrogate pair, whose first half is `high`. -/
def readLowSurrogate (high : Nat) (cs : List Char) : Except Error (Char × List Char) := do
  match cs with
  | [] | ['\\'] => refuse .endInString
  | '\\' :: 'u' :: rest =>
    let (low, rest) ← readHex4 rest
    if 0xDC00 ≤ low ∧ low ≤ 0xDFFF then
      return (Char.ofNat (0x10000 + (high - 0xD800) * 0x400 + (low - 0xDC00)), rest)
    else refuse .loneSurrogate
  | _ => refuse .unpairedEscape

/-- The character that follows `\u`, which takes two escapes beyond U+FFFF. -/
def readUnicodeEscape (cs : List Char) : Except Error (Char × List Char) := do
  let (unit, rest) ← readHex4 cs
  if 0xDC00 ≤ unit ∧ unit ≤ 0xDFFF then refuse .loneSurrogate
  else if 0xD800 ≤ unit ∧ unit ≤ 0xDBFF then readLowSurrogate unit rest
  else return (Char.ofNat unit, rest)

/-- The character that an escape stands for, after its backslash. -/
def readEscape (cs : List Char) : Except Error (Char × List Char) :=
  match cs with
  | [] => refuse .endInString
  | c :: rest =>
    if c = 'u' then readUnicodeEscape rest
    else if c = '"' ∨ c = '\\' ∨ c = '/' then .ok (c, rest)
    else if c = 'b' then .ok ('\x08', rest)
    else if c = 'f' then .ok ('\x0c', rest)
    else if c = 'n' then .ok ('\n', rest)
    else if c = 'r' then .ok ('\r', rest)
    else if c = 't' then .ok ('\t', rest)
    else refuse .invalidEscape

/-- The characters of a string up to its closing quote. -/
def readChars : (steps : Nat) → Reader (List Char)
  | 0, _ => refuse .endInString
  | steps + 1, cs => do
    match cs with
    | [] => refuse .endInString
    | c :: rest =>
      if c = '"' then return ([], rest)
      else if c = '\\' then
        let (c, rest) ← readEscape rest
        let (more, rest) ← readChars steps rest
        return (c :: more, rest)
      else if c.toNat < 0x20 then refuse .controlCharacter
      else
        let (more, rest) ← readChars steps rest
        return (c :: more, rest)

/-- A string after its opening quote. -/
def readString (size : Nat) : Reader String := fun cs => do
  let (chars, rest) ← readChars size cs
  return (String.ofList chars, rest)

/-- A numeral as it is written: digits before the point, after it, and an exponent. -/
structure Numeral where
  negative : Bool
  whole : List Char
  fraction : Option (List Char)
  exponent : Option Int
  deriving DecidableEq, Repr

def digitsValue (digits : List Char) : Nat :=
  digits.foldl (fun n c => 10 * n + (c.toNat - '0'.toNat)) 0

/-- The exact value of a numeral. -/
def Numeral.toDecimal (n : Numeral) : Decimal :=
  let fraction := n.fraction.getD []
  { negative := n.negative
    significand := digitsValue (n.whole ++ fraction)
    exponent := n.exponent.getD 0 - fraction.length }

/-- The integer of a numeral without point and exponent, unless it is a negative zero. -/
def Numeral.toInteger? (n : Numeral) : Option Integer :=
  if n.fraction.isNone && n.exponent.isNone then
    let magnitude : Int := digitsValue n.whole
    if n.negative then (if magnitude = 0 then none else Integer.ofInt? (-magnitude))
    else Integer.ofInt? magnitude
  else none

/-- Every other numeral is rounded to the nearest binary64 number, which has to be finite. A reader
that scales a 64-bit significand by a power of ten rounds more than once, and may end at the number
next to it where a numeral has more than fifteen digits: at `0.20054118910884566`, for one. -/
def Numeral.toNumber? (n : Numeral) : Option Number :=
  match n.toInteger? with
  | some i => some (.integer i)
  | none =>
    match n.toDecimal.toBinary64 with
    | .finite x => some (.float x)
    | .infinite _ | .nan => none

/-- At least one digit. -/
def readDigits (cs : List Char) : Except Error (List Char × List Char) :=
  match cs with
  | [] => refuse .endInValue
  | c :: _ =>
    if c.isDigit then .ok (cs.takeWhile Char.isDigit, cs.dropWhile Char.isDigit)
    else refuse .invalidNumber

/-- The digits before the point. A leading zero stands alone. -/
def readWhole (cs : List Char) : Except Error (List Char × List Char) := do
  let (digits, rest) ← readDigits cs
  match digits with
  | '0' :: _ :: _ => refuse .invalidNumber
  | _ => return (digits, rest)

def readFraction (cs : List Char) : Except Error (Option (List Char) × List Char) := do
  match cs with
  | '.' :: rest =>
    let (digits, rest) ← readDigits rest
    return (some digits, rest)
  | _ => return (none, cs)

def readExponentDigits (negative : Bool) (cs : List Char) :
    Except Error (Option Int × List Char) := do
  let (digits, rest) ← readDigits cs
  let magnitude : Int := digitsValue digits
  return (some (if negative then -magnitude else magnitude), rest)

def readExponent (cs : List Char) : Except Error (Option Int × List Char) :=
  match cs with
  | [] => .ok (none, [])
  | c :: rest =>
    if c = 'e' ∨ c = 'E' then
      match rest with
      | '+' :: rest => readExponentDigits false rest
      | '-' :: rest => readExponentDigits true rest
      | _ => readExponentDigits false rest
    else .ok (none, cs)

/-- A numeral, after its sign. -/
def readNumeral (negative : Bool) : Reader Numeral := fun cs => do
  let (whole, rest) ← readWhole cs
  let (fraction, rest) ← readFraction rest
  let (exponent, rest) ← readExponent rest
  return ({ negative, whole, fraction, exponent }, rest)

def readNumber (negative : Bool) : Reader Number := fun cs => do
  let (numeral, rest) ← readNumeral negative cs
  match numeral.toNumber? with
  | some n => return (n, rest)
  | none => refuse .numberOutOfRange

/-- What follows a member or an item: the closing bracket or the next one. -/
inductive Next where
  | closed (rest : List Char)
  | more (rest : List Char)

/-- Goes to the end of an object or to the name of its next member, after the opening quote. -/
def nextMember (first : Bool) (cs : List Char) : Except Error Next :=
  match skipBlanks cs with
  | [] => refuse .endInObject
  | c :: rest =>
    if c = '\x7d' then .ok (.closed rest)
    else if first then
      if c = '"' then .ok (.more rest) else refuse .expectedKey
    else if c = ',' then
      match skipBlanks rest with
      | [] => refuse .endInValue
      | d :: rest =>
        if d = '"' then .ok (.more rest)
        else if d = '\x7d' then refuse .trailingComma
        else refuse .expectedKey
    else refuse .expectedMemberEnd

/-- Goes past the colon after a member's name. -/
def readColon (cs : List Char) : Except Error (List Char) :=
  match skipBlanks cs with
  | [] => refuse .endInObject
  | c :: rest => if c = ':' then .ok rest else refuse .expectedColon

/-- The members up to the closing brace; `first` tells that none has been read. -/
def readMembers {α : Type} (size : Nat) (readItem : Reader α) :
    (steps : Nat) → (first : Bool) → Reader (List (String × α))
  | 0, _, _ => refuse .endInObject
  | steps + 1, first, cs => do
    match ← nextMember first cs with
    | .closed rest => return ([], rest)
    | .more rest =>
      let (name, rest) ← readString size rest
      let rest ← readColon rest
      let (item, rest) ← readItem rest
      let (members, rest) ← readMembers size readItem steps false rest
      return ((name, item) :: members, rest)

/-- Goes to the end of an array or to its next item. -/
def nextItem (first : Bool) (cs : List Char) : Except Error Next :=
  match skipBlanks cs with
  | [] => refuse .endInList
  | c :: rest =>
    if c = ']' then .ok (.closed rest)
    else if first then .ok (.more (c :: rest))
    else if c = ',' then
      match skipBlanks rest with
      | [] => refuse .endInValue
      | d :: rest => if d = ']' then refuse .trailingComma else .ok (.more (d :: rest))
    else refuse .expectedItemEnd

/-- The items up to the closing bracket; `first` tells that none has been read. -/
def readItems {α : Type} (readItem : Reader α) :
    (steps : Nat) → (first : Bool) → Reader (List α)
  | 0, _, _ => refuse .endInList
  | steps + 1, first, cs => do
    match ← nextItem first cs with
    | .closed rest => return ([], rest)
    | .more rest =>
      let (item, rest) ← readItem rest
      let (items, rest) ← readItems readItem steps false rest
      return (item :: items, rest)

/-- A value, where `inner` reads what stands inside brackets if any may still be opened. -/
def readValueWith (size : Nat) (inner : Option (Reader Json)) : Reader Json := fun cs => do
  match skipBlanks cs with
  | [] => refuse .endInValue
  | c :: rest =>
    if c = '"' then
      let (s, rest) ← readString size rest
      return (.string s, rest)
    else if c = '\x7b' then
      let some readItem := inner | refuse .nestedTooDeeply
      let (members, rest) ← readMembers size readItem size true rest
      return (.object members, rest)
    else if c = '[' then
      let some readItem := inner | refuse .nestedTooDeeply
      let (items, rest) ← readItems readItem size true rest
      return (.array items, rest)
    else if c = 'n' then
      return (.null, ← readWord ['u', 'l', 'l'] rest)
    else if c = 't' then
      return (.bool true, ← readWord ['r', 'u', 'e'] rest)
    else if c = 'f' then
      return (.bool false, ← readWord ['a', 'l', 's', 'e'] rest)
    else if c = '-' then
      let (n, rest) ← readNumber true rest
      return (.number n, rest)
    else if c.isDigit then
      let (n, rest) ← readNumber false (c :: rest)
      return (.number n, rest)
    else refuse .expectedValue

/-- A value that opens at most `nesting` brackets inside each other. -/
def readValue (size : Nat) : (nesting : Nat) → Reader Json
  | 0 => readValueWith size none
  | nesting + 1 => readValueWith size (some (readValue size nesting))

/-- The most brackets that a text may open inside each other. -/
def maxNesting : Nat := 127

/-- What stands at the front of a text. Brackets are not looked into. -/
def describe (size : Nat) (cs : List Char) : Except Error Found := do
  match skipBlanks cs with
  | [] => refuse .endInValue
  | c :: rest =>
    if c = '[' then return .sequence
    else if c = '\x7b' then return .map
    else
      match ← readValueWith size none (c :: rest) with
      | (.null, _) => return .null
      | (.bool b, _) => return .bool b
      | (.number n, _) => return .number n
      | (.string s, _) => return .string s
      | (.array _, _) => return .sequence
      | (.object _, _) => return .map

/-- Refuses what stands at the front of a text because something else was `expected`. -/
def wrongForm {α : Type} (size : Nat) (expected : String) (cs : List Char) : Except Error α := do
  let found ← describe size cs
  .error (.wrongForm found expected)

/-- An object whose members `readItem` reads. -/
def readMap {α : Type} (size : Nat) (readItem : Reader α) : Reader (List (String × α)) :=
  fun cs =>
    match skipBlanks cs with
    | '\x7b' :: rest => readMembers size readItem size true rest
    | cs => wrongForm size "a map" cs

/-- Reads a whole text. -/
def readText {α : Type} (reader : Nat → Reader α) (text : String) : Except Error α := do
  let cs := text.toList
  let (value, rest) ← reader (cs.length + 1) cs
  if (skipBlanks rest).isEmpty then return value else refuse .trailingCharacters

/-- The value that a text spells, as it is written. -/
def parse (text : String) : Except Error Json :=
  readText (fun size => readValue size maxNesting) text

/-- The value that a text stands for. -/
def read (text : String) : Except Error Json := normalize <$> parse text

/-- The members of an object, each read as the value that it stands for. -/
def readObject (text : String) : Except Error (List (String × Json)) :=
  normalizeMembers <$> readText (fun size => readMap size (readValue size (maxNesting - 1))) text

end WireQuery.Json
