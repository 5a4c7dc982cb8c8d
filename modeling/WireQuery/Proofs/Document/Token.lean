import WireQuery.Name
import WireQuery.Proofs.Text.Scanner

/-!
# Tokens of documents

A document consists of names and punctuation marks. White space and commas only separate them, and
a name extends as far as its characters do.
-/

namespace WireQuery
set_option autoImplicit false

inductive Mark where
  | openBrace
  | closeBrace
  | openParen
  | closeParen
  | openBracket
  | closeBracket
  | colon
  | dollar
  | bang
  deriving DecidableEq, Repr

def Mark.ofChar? : Char → Option Mark
  | '\x7b' => some openBrace
  | '\x7d' => some closeBrace
  | '(' => some openParen
  | ')' => some closeParen
  | '[' => some openBracket
  | ']' => some closeBracket
  | ':' => some colon
  | '$' => some dollar
  | '!' => some bang
  | _ => none

inductive Token where
  | name (text : String)
  | mark (m : Mark)
  deriving DecidableEq, Repr

namespace Token

def isSeparator (c : Char) : Bool :=
  c == ' ' || c == '\n' || c == '\t' || c == '\r' || c == ','

/-- The tokens of a single character that belongs to no name. -/
def ofChar? (c : Char) : Option (List Token) :=
  if isSeparator c then some [] else (Mark.ofChar? c).map fun m => [.mark m]

/-- The tokens of a run of name characters. -/
def ofRun? : List Char → Option (List Token)
  | [] => some []
  | c :: cs =>
    if Name.isValidChars (c :: cs) then some [.name (String.ofList (c :: cs))] else none

def scanner : Scanner Token where
  isPart := Name.isPart
  ofRun? := ofRun?
  ofRun?_nil := rfl
  ofChar? := ofChar?

/-- All names in the list are names of the protocol. -/
def Valid (tokens : List Token) : Prop :=
  ∀ text, .name text ∈ tokens → Name.isValid text = true

theorem Valid.append {before rest : List Token} (hbefore : Valid before) (hrest : Valid rest) :
    Valid (before ++ rest) := by
  intro text htext
  rcases List.mem_append.mp htext with htext | htext
  · exact hbefore text htext
  · exact hrest text htext

theorem Valid.right {before rest : List Token} (h : Valid (before ++ rest)) : Valid rest := by
  intro text htext
  exact h text (List.mem_append_right before htext)

theorem Valid.tail {t : Token} {rest : List Token} (h : Valid (t :: rest)) : Valid rest := by
  intro text htext
  exact h text (List.mem_cons_of_mem t htext)

theorem Valid.head {text : String} {rest : List Token} (h : Valid (.name text :: rest)) :
    Name.isValid text = true := h text List.mem_cons_self

theorem ofRun?_name {run : List Char} (h : Name.isValidChars run = true) :
    ofRun? run = some [.name (String.ofList run)] := by
  cases run with
  | nil => exact absurd rfl (Name.ne_nil_of_isValidChars h)
  | cons c cs => simp [ofRun?, h]

theorem valid_ofRun? {run : List Char} {tokens : List Token} (h : ofRun? run = some tokens) :
    Valid tokens := by
  unfold ofRun? at h
  split at h
  · cases h
    intro text htext
    cases htext
  · split at h
    · next c cs hvalid =>
      cases h
      intro text htext
      have heq : text = String.ofList (c :: cs) := by simpa using htext
      simpa [heq, Name.isValid] using hvalid
    · cases h

theorem valid_ofChar? {c : Char} {tokens : List Token} (h : ofChar? c = some tokens) :
    Valid tokens := by
  intro text htext
  unfold ofChar? at h
  split at h
  · cases h
    cases htext
  · obtain ⟨m, -, rfl⟩ := Option.map_eq_some_iff.mp h
    simp at htext

theorem valid_readAll {text : String} {tokens : List Token}
    (h : scanner.readAll text = some tokens) : Valid tokens :=
  Scanner.of_scan valid_ofRun? valid_ofChar? Valid.append h

theorem spells_name {text : String} (h : Name.isValid text = true) :
    scanner.Spells text [.name text] := by
  apply Scanner.spells_run
  · intro c hc
    exact Name.isPart_of_mem h hc
  · have hrun := ofRun?_name h
    rwa [String.ofList_toList] at hrun

end Token

end WireQuery
