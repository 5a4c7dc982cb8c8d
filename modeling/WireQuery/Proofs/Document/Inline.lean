import WireQuery.Proofs.Document.Grammar
import WireQuery.Name

/-!
# Texts on one line

The header of a document and its fields are words with one blank between two of them, and no word
has a brace. So a blank never stands beside another one, at an end of such a text or in a name.
-/

namespace WireQuery
set_option autoImplicit false

/-- A character that neither separates words nor groups selections. -/
def isWordChar (c : Char) : Bool := c != ' ' && c != '\n' && c != '\x7b' && c != '\x7d'

/-- Words with one blank between two of them. -/
inductive Inline : String → Prop where
  | word {text : String} (filled : text.toList ≠ []) (each : text.toList.all isWordChar = true) :
      Inline text
  | append {before after : String} (left : Inline before) (right : Inline after) :
      Inline (before ++ after)
  | spaced {before after : String} (left : Inline before) (right : Inline after) :
      Inline (before ++ " " ++ after)

namespace Inline

theorem isWordChar_of_isPart {c : Char} (h : Name.isPart c = true) : isWordChar c = true := by
  have hne : ∀ {d : Char}, Name.isPart d = false → c ≠ d := by
    rintro d hd rfl
    rw [h] at hd
    cases hd
  simp [isWordChar, @hne ' ' (by decide), @hne '\n' (by decide), @hne '\x7b' (by decide),
    @hne '\x7d' (by decide)]

theorem name {text : String} (h : Name.isValid text = true) : Inline text := by
  refine .word (Name.ne_nil_of_isValidChars h) (List.all_eq_true.mpr fun c hc => ?_)
  exact isWordChar_of_isPart (Name.isPart_of_mem h hc)

/-- A character of the text is a blank or stands in a word. -/
theorem char {text : String} (h : Inline text) :
    ∀ c ∈ text.toList, c = ' ' ∨ isWordChar c = true := by
  induction h with
  | word _ each => exact fun c hc => Or.inr (List.all_eq_true.mp each c hc)
  | append _ _ ihleft ihright =>
    rw [String.toList_append]
    exact List.forall_mem_append.mpr ⟨ihleft, ihright⟩
  | spaced _ _ ihleft ihright =>
    rw [String.toList_append, String.toList_append]
    refine List.forall_mem_append.mpr ⟨List.forall_mem_append.mpr ⟨ihleft, ?_⟩, ihright⟩
    intro c hc
    exact Or.inl (List.mem_singleton.mp hc)

theorem exists_cons {text : String} (h : Inline text) :
    ∃ c cs, text.toList = c :: cs ∧ isWordChar c = true := by
  induction h with
  | @word text filled each =>
    cases hcs : text.toList with
    | nil => exact absurd hcs filled
    | cons c cs =>
      rw [hcs, List.all_cons, Bool.and_eq_true] at each
      exact ⟨c, cs, rfl, each.1⟩
  | append _ _ ihleft _ =>
    obtain ⟨c, cs, hcs, hc⟩ := ihleft
    exact ⟨c, _, by rw [String.toList_append, hcs, List.cons_append], hc⟩
  | spaced _ _ ihleft _ =>
    obtain ⟨c, cs, hcs, hc⟩ := ihleft
    exact ⟨c, _, by rw [String.append_assoc, String.toList_append, hcs, List.cons_append], hc⟩

theorem intercalate_comma {α : Type} {text : α → String} {x : α} {xs : List α}
    (h : ∀ y ∈ x :: xs, Inline (text y)) : Inline (", ".intercalate ((x :: xs).map text)) := by
  induction xs generalizing x with
  | nil =>
    rw [List.map_singleton, String.intercalate_singleton]
    exact h x List.mem_cons_self
  | cons y xs ih =>
    obtain ⟨hx, hxs⟩ := List.forall_mem_cons.mp h
    have hcomma : Inline "," := .word (by decide) (by decide)
    have hsplit : text x ++ ", " = text x ++ "," ++ " " := by
      rw [String.append_assoc]
      rfl
    rw [List.map_cons, List.map_cons, String.intercalate_cons_cons, hsplit]
    exact (hx.append hcomma).spaced (ih hxs)

/-- A list in parentheses may follow without a blank. -/
theorem parenthesized {α : Type} {text : α → String} {xs : List α} (h : ∀ x ∈ xs, Inline (text x))
    {before : String} (left : Inline before) :
    Inline (before ++ WireQuery.parenthesized (xs.map text)) := by
  cases xs with
  | nil =>
    rw [List.map_nil, WireQuery.parenthesized, String.append_empty]
    exact left
  | cons x xs =>
    have hopen : Inline "(" := .word (by decide) (by decide)
    have hclose : Inline ")" := .word (by decide) (by decide)
    exact left.append ((hopen.append (intercalate_comma h)).append hclose)

/-- A label with a colon before the text. -/
theorem labelled {label text : String} (left : Inline label) (right : Inline text) :
    Inline (label ++ ": " ++ text) := by
  have hcolon : Inline ":" := .word (by decide) (by decide)
  have hsplit : label ++ ": " = label ++ ":" ++ " " := by
    rw [String.append_assoc]
    rfl
  rw [hsplit]
  exact (left.append hcolon).spaced right

end Inline

theorem WireType.inline_text {t : WireType} (h : Name.isValid t.baseName = true) :
    Inline t.text := by
  induction t with
  | named name => exact .name h
  | list element ih =>
    have hopen : Inline "[" := .word (by decide) (by decide)
    have hclose : Inline "]" := .word (by decide) (by decide)
    exact (hopen.append (ih h)).append hclose
  | nonNull inner ih =>
    have hbang : Inline "!" := .word (by decide) (by decide)
    exact (ih h).append hbang

theorem inline_dollar {name : String} (h : Name.isValid name = true) : Inline ("$" ++ name) := by
  have hdollar : Inline "$" := .word (by decide) (by decide)
  exact hdollar.append (.name h)

theorem VariableDefinition.inline_text {d : VariableDefinition} (h : d.WellFormed) :
    Inline d.text :=
  (inline_dollar h.name).labelled (WireType.inline_text h.type.name)

theorem Argument.inline_text {a : Argument} (h : a.WellFormed) : Inline a.text := by
  have hsplit : a.name ++ ": $" = a.name ++ ": " ++ "$" := by
    rw [String.append_assoc]
    rfl
  rw [text, hsplit, String.append_assoc]
  exact (Inline.name h.name).labelled (inline_dollar h.variableName)

theorem Field.inline_text {field : Field} (h : field.WellFormed) : Inline field.text := by
  refine .parenthesized (fun a ha => Argument.inline_text (h.arguments a ha)) ?_
  cases haliasName : field.aliasName with
  | none =>
    rw [String.empty_append]
    exact .name h.name
  | some aliasName => exact (Inline.name (h.aliasName _ haliasName)).labelled (.name h.name)

theorem Document.inline_header {document : Document} (h : document.WellFormed) :
    Inline document.header := by
  refine .parenthesized (fun d hd => VariableDefinition.inline_text (h.definitions d hd)) ?_
  have hquery : Inline "query" := .word (by decide) (by decide)
  cases hname : document.operationName with
  | none =>
    rw [String.append_empty]
    exact hquery
  | some name =>
    rw [← String.append_assoc]
    exact hquery.spaced (.name (h.operationName name hname))

end WireQuery
