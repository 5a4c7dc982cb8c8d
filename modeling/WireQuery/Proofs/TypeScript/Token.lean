import WireQuery.Name
import WireQuery.Proofs.Text.Scanner

/-!
# Tokens of TypeScript declarations

Declarations consist of words and punctuation marks; white space only separates them. A character
beyond ASCII that is not white space counts as a letter.
-/

namespace WireQuery.TypeScript
set_option autoImplicit false

inductive Token where
  | word (text : String)
  | mark (c : Char)
  deriving DecidableEq, Repr

/-- White space and the ends of lines. -/
def isBlank (c : Char) : Bool :=
  c == ' ' || ('\t' ≤ c && c ≤ '\r') || c == '\u00a0' || c == '\u1680' ||
    ('\u2000' ≤ c && c ≤ '\u200a') || c == '\u2028' || c == '\u2029' || c == '\u202f' ||
    c == '\u205f' || c == '\u3000' || c == '\ufeff'

def isWordPart (c : Char) : Bool :=
  c == '_' || c == '$' || c.isAlphanum || ('\u0080' ≤ c && !isBlank c)

/-- The marks of declarations, each a token of its own. -/
def marks : List Char :=
  ['\x7b', '\x7d', '(', ')', '[', ']', '<', '>', '|', '=', ':', '?', ';']

def scanner : Scanner Token where
  isPart := isWordPart
  ofRun? run := some (if run.isEmpty then [] else [.word (String.ofList run)])
  ofRun?_nil := rfl
  ofChar? c := if isBlank c then some [] else if c ∈ marks then some [.mark c] else none

def isIdentifierChars : List Char → Bool
  | [] => false
  | c :: cs => isWordPart c && !c.isDigit && cs.all isWordPart

def isIdentifier (s : String) : Bool := isIdentifierChars s.toList

/-- The keywords, with those that are so in some places only and the names of primitive types. -/
def keywords : List String :=
  ["break", "case", "catch", "class", "const", "continue", "debugger", "default", "delete", "do",
    "else", "enum", "export", "extends", "false", "finally", "for", "function", "if", "import",
    "in", "instanceof", "new", "null", "return", "super", "switch", "this", "throw", "true", "try",
    "typeof", "var", "void", "while", "with", "implements", "interface", "let", "package",
    "private", "protected", "public", "static", "yield", "abstract", "accessor", "any", "as",
    "asserts", "assert", "async", "await", "bigint", "boolean", "constructor", "declare", "defer",
    "from", "get", "global", "infer", "intrinsic", "is", "keyof", "module", "namespace", "never",
    "number", "object", "of", "out", "override", "readonly", "require", "satisfies", "set",
    "string", "symbol", "type", "undefined", "unique", "unknown", "using"]

/-- Whether a declaration may have the name. -/
def isTypeName (s : String) : Bool := isIdentifier s && !keywords.contains s

theorem isIdentifier_of_isTypeName {s : String} (h : isTypeName s = true) :
    isIdentifier s = true := (Bool.and_eq_true_iff.mp h).1

theorem not_mem_keywords {s : String} (h : isTypeName s = true) : s ∉ keywords := by
  have hkeyword := (Bool.and_eq_true_iff.mp h).2
  simpa using hkeyword

theorem isWordPart_of_mem {s : String} (h : isIdentifier s = true) {c : Char}
    (hc : c ∈ s.toList) : isWordPart c = true := by
  unfold isIdentifier isIdentifierChars at h
  split at h
  · cases h
  · next first rest heq =>
    rw [heq] at hc
    obtain ⟨hfirst, hrest⟩ := Bool.and_eq_true_iff.mp h
    rcases List.mem_cons.mp hc with rfl | hc
    · exact (Bool.and_eq_true_iff.mp hfirst).1
    · exact List.all_eq_true.mp hrest c hc

theorem spells_identifier {s : String} (h : isIdentifier s = true) :
    scanner.Spells s [.word s] := by
  apply Scanner.spells_run
  · intro c hc
    exact isWordPart_of_mem h hc
  · have hfilled : s.toList.isEmpty = false := by
      cases hs : s.toList with
      | nil =>
        rw [isIdentifier, hs] at h
        cases h
      | cons c cs => rfl
    change some (if s.toList.isEmpty then [] else [Token.word (String.ofList s.toList)]) = _
    rw [hfilled, String.ofList_toList]
    rfl

theorem isDigit_of_isStart {c : Char} (h : Name.isStart c = true) : c.isDigit = false := by
  unfold Name.isStart at h
  rcases Bool.or_eq_true_iff.mp h with h | h
  · rw [beq_iff_eq.mp h]
    decide
  · delta Char.isAlpha Char.isUpper Char.isLower at h
    delta Char.isDigit
    grind

theorem isWordPart_of_isPart {c : Char} (h : Name.isPart c = true) : isWordPart c = true := by
  unfold Name.isPart at h
  unfold isWordPart
  rcases Bool.or_eq_true_iff.mp h with h | h <;> simp [h]

/-- The names of the protocol are identifiers. -/
theorem isIdentifier_of_isValid {s : String} (h : Name.isValid s = true) :
    isIdentifier s = true := by
  unfold Name.isValid at h
  unfold isIdentifier
  cases hs : s.toList with
  | nil => exact absurd hs (Name.ne_nil_of_isValidChars h)
  | cons c cs =>
    rw [hs] at h
    obtain ⟨hstart, hrest⟩ := Bool.and_eq_true_iff.mp h
    have hpart := isWordPart_of_isPart (Name.isPart_of_isStart hstart)
    have hall : cs.all isWordPart = true := by
      apply List.all_eq_true.mpr
      intro a ha
      exact isWordPart_of_isPart (List.all_eq_true.mp hrest a ha)
    simp [isIdentifierChars, hpart, isDigit_of_isStart hstart, hall]

end WireQuery.TypeScript
