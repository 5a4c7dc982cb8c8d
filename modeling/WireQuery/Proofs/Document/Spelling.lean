import WireQuery.Proofs.Document.Grammar

/-!
# What documents are spelled with

Both forms of a document have its tokens. A text that ends in a name has its tokens only where no
name character follows, so names are always put next to marks, white space or commas.
-/

namespace WireQuery
set_option autoImplicit false

open Token (scanner spells_name)
open Scanner (closes_empty spells_empty spells_intercalate_cons)

theorem breaks_parenthesized (parts : List String) :
    scanner.Breaks (parenthesized parts).toList := by
  cases parts with
  | nil =>
    intro c rest heq
    cases heq
  | cons part parts =>
    intro c rest heq
    have hc : c = '(' := by
      have hhead := congrArg List.head? heq
      simpa [parenthesized] using hhead.symm
    rw [hc]
    decide

theorem spells_parenthesized {α : Type} {text : α → String} {tokens : α → List Token}
    {items : List α} (h : ∀ item ∈ items, scanner.Spells (text item) (tokens item)) :
    scanner.Spells (parenthesized (items.map text)) (parenthesizedTokens tokens items) := by
  have hinner : scanner.Spells (", ".intercalate (items.map text)) (items.flatMap tokens) := by
    induction items with
    | nil => exact spells_empty
    | cons item items ih =>
      have hcomma : scanner.Symbols ", " [] := by decide
      rw [List.map_cons, List.flatMap_cons]
      exact spells_intercalate_cons hcomma (h item List.mem_cons_self)
        (ih fun other hother => h other (List.mem_cons_of_mem item hother))
  cases items with
  | nil => exact spells_empty
  | cons item items =>
    have hopen : scanner.Symbols "(" [.mark .openParen] := by decide
    have hclose : scanner.Symbols ")" [.mark .closeParen] := by decide
    exact ((hopen.closes.append_spells hinner).append_symbols hclose).spells

theorem WireType.spells_text {t : WireType} (h : t.WellFormed) :
    scanner.Spells t.text t.tokens := by
  obtain ⟨hname, hform⟩ := h
  induction t with
  | named name => exact spells_name hname
  | list element ih =>
    have hopen : scanner.Symbols "[" [.mark .openBracket] := by decide
    have hclose : scanner.Symbols "]" [.mark .closeBracket] := by decide
    exact ((hopen.closes.append_spells (ih hname hform)).append_symbols hclose).spells
  | nonNull inner ih =>
    have hbang : scanner.Symbols "!" [.mark .bang] := by decide
    exact ((ih hname hform.2).append_symbols hbang).spells

theorem VariableDefinition.spells_text {d : VariableDefinition} (h : d.WellFormed) :
    scanner.Spells d.text d.tokens := by
  have hdollar : scanner.Symbols "$" [.mark .dollar] := by decide
  have hcolon : scanner.Symbols ": " [.mark .colon] := by decide
  have hname := (hdollar.closes.append_spells (spells_name h.name)).append_symbols hcolon
  exact hname.append_spells (WireType.spells_text h.type)

theorem Argument.spells_text {a : Argument} (h : a.WellFormed) :
    scanner.Spells a.text a.tokens := by
  have hcolon : scanner.Symbols ": $" [.mark .colon, .mark .dollar] := by decide
  have hname := (spells_name h.name).append_symbols hcolon
  exact hname.append_spells (spells_name h.variableName)

theorem Field.spells_text {field : Field} (h : field.WellFormed) :
    scanner.Spells field.text field.tokens := by
  obtain ⟨name, aliasName, arguments⟩ := field
  have harguments := spells_parenthesized fun a ha => Argument.spells_text (h.arguments a ha)
  have hcall := (spells_name h.name).append harguments (breaks_parenthesized _)
  cases aliasName with
  | none =>
    rw [Field.text, String.append_assoc]
    exact closes_empty.append_spells hcall
  | some aliasName =>
    have hcolon : scanner.Symbols ": " [.mark .colon] := by decide
    have hlabel := (spells_name (h.aliasName aliasName rfl)).append_symbols hcolon
    rw [Field.text, String.append_assoc]
    exact hlabel.append_spells hcall

namespace Token

variable {a b : String} {ts us : List Token}

theorem spells_braces (ha : scanner.Spells a ts) (hb : scanner.Spells b us) :
    scanner.Spells (a ++ " \x7b " ++ b ++ " \x7d")
      (ts ++ .mark .openBrace :: us ++ [.mark .closeBrace]) := by
  have hopen : scanner.Symbols " \x7b " [.mark .openBrace] := by decide
  have hclose : scanner.Symbols " \x7d" [.mark .closeBrace] := by decide
  have hall := ((ha.append_symbols hopen).append_spells hb).append_symbols hclose
  rw [List.append_assoc ts] at hall
  exact hall.spells

theorem spells_lines (ha : scanner.Spells a ts) (hb : scanner.Closes b us) :
    scanner.Spells (a ++ " \x7b\n" ++ b ++ "\x7d")
      (ts ++ .mark .openBrace :: us ++ [.mark .closeBrace]) := by
  have hopen : scanner.Symbols " \x7b\n" [.mark .openBrace] := by decide
  have hclose : scanner.Symbols "\x7d" [.mark .closeBrace] := by decide
  have hall := ((ha.append_symbols hopen).append hb).append hclose.closes
  rw [List.append_assoc ts] at hall
  exact hall.spells

theorem closes_indentation (depth : Nat) : scanner.Closes (Selection.indentation depth) [] := by
  intro rest
  rw [Selection.indentation, String.toList_ofList]
  induction 2 * depth with
  | zero => simp
  | succ n ih =>
    have hblank : scanner.ofChar? ' ' = some [] := rfl
    rw [List.replicate_succ, List.cons_append, Scanner.scan_char (by decide) hblank, ih,
      Scanner.prepend_prepend]
    rfl

theorem closes_line (depth : Nat) (h : scanner.Spells a ts) :
    scanner.Closes (Selection.line depth a) ts := by
  have hend : scanner.Symbols "\n" [] := by decide
  have hline := ((closes_indentation depth).append_spells h).append_symbols hend
  rw [List.append_nil] at hline
  exact hline

end Token

open Token (spells_braces spells_lines closes_indentation closes_line)

namespace Selection

mutual

theorem spells_compact : ∀ (s : Selection), s.WellFormed → scanner.Spells s.compact s.tokens
  | leaf _, h => Field.spells_text h
  | nested _ selections, ⟨hfield, _, hall⟩ =>
    spells_braces (Field.spells_text hfield) (spells_compactAll selections hall)

theorem spells_compactAll : ∀ (selections : List Selection), AllWellFormed selections →
    scanner.Spells (" ".intercalate (compactAll selections)) (tokensAll selections)
  | [], _ => spells_empty
  | s :: rest, ⟨hs, hrest⟩ => by
    have hspace : scanner.Symbols " " [] := by decide
    exact spells_intercalate_cons hspace (spells_compact s hs) (spells_compactAll rest hrest)

end

mutual

theorem spells_indented (depth : Nat) :
    ∀ (s : Selection), s.WellFormed → scanner.Spells (s.indented depth) s.tokens
  | leaf _, h => Field.spells_text h
  | nested field selections, ⟨hfield, _, hall⟩ => by
    have hinner := (closes_indentedAll (depth + 1) selections hall).append
      (closes_indentation depth)
    rw [List.append_nil] at hinner
    have hlines := spells_lines (Field.spells_text hfield) hinner
    rw [← String.append_assoc] at hlines
    exact hlines

theorem closes_indentedAll (depth : Nat) :
    ∀ (selections : List Selection), AllWellFormed selections →
      scanner.Closes (indentedAll depth selections) (tokensAll selections)
  | [], _ => closes_empty
  | s :: rest, ⟨hs, hrest⟩ =>
    (closes_line depth (spells_indented depth s hs)).append (closes_indentedAll depth rest hrest)

end

end Selection

namespace Document

variable {document : Document}

theorem spells_header (h : document.WellFormed) :
    scanner.Spells document.header
      (.name "query" :: (document.operationName.map Token.name).toList ++
        parenthesizedTokens VariableDefinition.tokens document.definitions) := by
  obtain ⟨operationName, definitions, selections⟩ := document
  have hdefinitions := spells_parenthesized fun d hd =>
    VariableDefinition.spells_text (h.definitions d hd)
  have hquery : scanner.Spells "query" [.name "query"] := spells_name (by decide)
  cases operationName with
  | none =>
    rw [header, String.append_empty]
    exact hquery.append hdefinitions (breaks_parenthesized _)
  | some name =>
    have hspace : scanner.Symbols " " [] := by decide
    have hname := (hquery.append_symbols hspace).append_spells
      (spells_name (h.operationName name rfl))
    rw [String.append_assoc] at hname
    exact hname.append hdefinitions (breaks_parenthesized _)

/-- Both forms of a document have its tokens. -/
theorem spells_write (h : document.WellFormed) (style : TextStyle) :
    scanner.Spells (document.write style) document.tokens := by
  cases style with
  | compact => exact spells_braces (spells_header h) (Selection.spells_compactAll _ h.selections)
  | indented =>
    exact spells_lines (spells_header h) (Selection.closes_indentedAll 1 _ h.selections)

end Document

end WireQuery
