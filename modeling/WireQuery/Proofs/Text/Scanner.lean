import Mathlib.Logic.Basic

/-!
# Scanners

A scanner takes characters of words together, as far as they go, and every other character by
itself. A text gives the same tokens before anything that does not go on with its last word.
-/

namespace WireQuery
set_option autoImplicit false

structure Scanner (τ : Type) where
  isPart : Char → Bool
  /-- The tokens of a run of word characters, none if there is no such token. -/
  ofRun? : List Char → Option (List τ)
  ofRun?_nil : ofRun? [] = some []
  /-- The tokens of a character that belongs to no word. -/
  ofChar? : Char → Option (List τ)

namespace Scanner

variable {τ : Type} (s : Scanner τ)

/-- The tokens of characters after a run of word characters. -/
def scan (run : List Char) : List Char → Option (List τ)
  | [] => s.ofRun? run
  | c :: cs =>
    if s.isPart c then scan (run ++ [c]) cs
    else do
      let before ← s.ofRun? run
      let here ← s.ofChar? c
      let rest ← scan [] cs
      return before ++ here ++ rest

/-- The tokens of a text. -/
def readAll (text : String) : Option (List τ) := s.scan [] text.toList

/-- No word goes on into the characters. -/
def Breaks (cs : List Char) : Prop := ∀ c rest, cs = c :: rest → s.isPart c = false

/-- A text gives these tokens wherever no word goes on beyond it. -/
def Spells (text : String) (tokens : List τ) : Prop :=
  ∀ rest, s.Breaks rest → s.scan [] (text.toList ++ rest) = (tokens ++ ·) <$> s.scan [] rest

/-- A text gives these tokens whatever follows it. -/
def Closes (text : String) (tokens : List τ) : Prop :=
  ∀ rest, s.scan [] (text.toList ++ rest) = (tokens ++ ·) <$> s.scan [] rest

/-- A text with known tokens that ends in no word. -/
structure Literal (text : String) (tokens : List τ) : Prop where
  tokens : s.readAll text = some tokens
  closed : text.toList.getLast?.all (fun c => !s.isPart c) = true

/-- A text with known tokens that neither begins nor ends in a word. -/
structure Symbols (text : String) (tokens : List τ) : Prop extends Literal s text tokens where
  opened : text.toList.head?.any (fun c => !s.isPart c) = true

instance [DecidableEq τ] (text : String) (tokens : List τ) : Decidable (s.Literal text tokens) :=
  decidable_of_iff
    (s.readAll text = some tokens ∧ text.toList.getLast?.all (fun c => !s.isPart c) = true)
    ⟨fun h => ⟨h.1, h.2⟩, fun h => ⟨h.tokens, h.closed⟩⟩

instance [DecidableEq τ] (text : String) (tokens : List τ) : Decidable (s.Symbols text tokens) :=
  decidable_of_iff
    (s.Literal text tokens ∧ text.toList.head?.any (fun c => !s.isPart c) = true)
    ⟨fun h => ⟨h.1, h.2⟩, fun h => ⟨h.toLiteral, h.opened⟩⟩

variable {s} {a b sep : String} {ts us : List τ}

theorem prepend_prepend (ts us : List τ) (rest : Option (List τ)) :
    (ts ++ ·) <$> (us ++ ·) <$> rest = (ts ++ us ++ ·) <$> rest := by
  cases rest <;> simp

theorem scan_run (run : List Char) {cs : List Char} (hcs : ∀ c ∈ cs, s.isPart c = true)
    (rest : List Char) : s.scan run (cs ++ rest) = s.scan (run ++ cs) rest := by
  induction cs generalizing run with
  | nil => simp
  | cons c cs ih =>
    obtain ⟨hc, hrest⟩ := List.forall_mem_cons.mp hcs
    rw [List.cons_append, scan, if_pos hc, ih _ hrest, List.append_assoc]
    rfl

theorem scan_char {c : Char} (hc : s.isPart c = false) {here : List τ}
    (hhere : s.ofChar? c = some here) (cs : List Char) :
    s.scan [] (c :: cs) = (here ++ ·) <$> s.scan [] cs := by
  simp only [scan, hc, Bool.false_eq_true, if_false, hhere, s.ofRun?_nil]
  cases s.scan [] cs <;> simp [bind, pure]

theorem scan_of_breaks {run rest : List Char} {before : List τ} (hrun : s.ofRun? run = some before)
    (hrest : s.Breaks rest) : s.scan run rest = (before ++ ·) <$> s.scan [] rest := by
  cases rest with
  | nil =>
    rw [scan, scan, hrun, s.ofRun?_nil]
    simp
  | cons c cs =>
    have hc := hrest c cs rfl
    simp only [scan, hc, Bool.false_eq_true, if_false, hrun, s.ofRun?_nil]
    cases s.ofChar? c with
    | none => rfl
    | some here =>
      cases s.scan [] cs with
      | none => rfl
      | some tokens => simp [bind, pure]

/-- What stands before a character that belongs to no word is scanned by itself. -/
theorem scan_append (run cs : List Char) {c : Char} (hc : s.isPart c = false) (rest : List Char) :
    s.scan run (cs ++ c :: rest) = do
      let before ← s.scan run (cs ++ [c])
      let after ← s.scan [] rest
      return before ++ after := by
  induction cs generalizing run with
  | nil =>
    simp only [List.nil_append, scan, hc, Bool.false_eq_true, if_false, s.ofRun?_nil]
    cases s.ofRun? run <;> cases s.ofChar? c <;> cases s.scan [] rest <;> simp [bind, pure]
  | cons d cs ih =>
    simp only [List.cons_append, scan]
    split
    · exact ih (run ++ [d])
    · rw [ih []]
      cases s.ofRun? run <;> cases s.ofChar? d <;> cases s.scan [] (cs ++ [c]) <;>
        cases s.scan [] rest <;> simp [bind, pure]

/-- What holds of the tokens of runs and of characters, also put together, holds of all tokens. -/
theorem of_scan {P : List τ → Prop}
    (hrun : ∀ {run : List Char} {tokens : List τ}, s.ofRun? run = some tokens → P tokens)
    (hchar : ∀ {c : Char} {tokens : List τ}, s.ofChar? c = some tokens → P tokens)
    (happend : ∀ {before rest : List τ}, P before → P rest → P (before ++ rest))
    {run cs : List Char} {tokens : List τ} (h : s.scan run cs = some tokens) : P tokens := by
  induction cs generalizing run tokens with
  | nil => exact hrun h
  | cons c cs ih =>
    rw [scan] at h
    split at h
    · exact ih h
    · simp only [bind, Option.bind_eq_some_iff, pure, Option.some.injEq] at h
      obtain ⟨before, hbefore, here, hhere, rest, hrest, rfl⟩ := h
      exact happend (happend (hrun hbefore) (hchar hhere)) (ih hrest)

theorem Literal.closes (h : s.Literal a ts) : s.Closes a ts := by
  intro rest
  have htokens := h.tokens
  unfold readAll at htokens
  rcases List.eq_nil_or_concat a.toList with hnil | ⟨cs, c, hconcat⟩
  · rw [hnil, scan, s.ofRun?_nil] at htokens
    cases htokens
    rw [hnil]
    simp
  · have hclosed := h.closed
    rw [hconcat, List.concat_eq_append] at hclosed htokens
    rw [hconcat, List.concat_eq_append]
    have hc : s.isPart c = false := by simpa using hclosed
    rw [List.append_assoc, List.singleton_append, scan_append [] cs hc, htokens]
    cases s.scan [] rest <;> rfl

theorem closes_empty : s.Closes "" [] := by
  intro rest
  simp

theorem spells_empty : s.Spells "" [] := fun rest _ => closes_empty rest

theorem spells_run (hpart : ∀ c ∈ a.toList, s.isPart c = true)
    (hrun : s.ofRun? a.toList = some ts) : s.Spells a ts := by
  intro rest hrest
  rw [scan_run [] hpart, List.nil_append, scan_of_breaks hrun hrest]

theorem Closes.spells (h : s.Closes a ts) : s.Spells a ts := fun rest _ => h rest

theorem Closes.append (ha : s.Closes a ts) (hb : s.Closes b us) :
    s.Closes (a ++ b) (ts ++ us) := by
  intro rest
  rw [String.toList_append, List.append_assoc, ha, hb, prepend_prepend]

theorem Closes.append_spells (ha : s.Closes a ts) (hb : s.Spells b us) :
    s.Spells (a ++ b) (ts ++ us) := by
  intro rest hrest
  rw [String.toList_append, List.append_assoc, ha, hb rest hrest, prepend_prepend]

theorem breaks_append {cs rest : List Char} (hcs : s.Breaks cs) (hrest : s.Breaks rest) :
    s.Breaks (cs ++ rest) := by
  cases cs with
  | nil => exact hrest
  | cons c cs =>
    intro c' rest' heq
    cases heq
    exact hcs c cs rfl

theorem Spells.append (ha : s.Spells a ts) (hb : s.Spells b us) (hbreak : s.Breaks b.toList) :
    s.Spells (a ++ b) (ts ++ us) := by
  intro rest hrest
  rw [String.toList_append, List.append_assoc, ha _ (breaks_append hbreak hrest), hb rest hrest,
    prepend_prepend]

/-- Symbols end whatever is before them. -/
theorem Spells.append_symbols (ha : s.Spells a ts) (hb : s.Symbols b us) :
    s.Closes (a ++ b) (ts ++ us) := by
  intro rest
  have hbreak : s.Breaks (b.toList ++ rest) := by
    have hopened := hb.opened
    cases hcs : b.toList with
    | nil =>
      rw [hcs] at hopened
      cases hopened
    | cons c cs =>
      rintro _ _ ⟨⟩
      rw [hcs] at hopened
      simpa using hopened
  rw [String.toList_append, List.append_assoc, ha _ hbreak, hb.closes, prepend_prepend]

theorem readAll_of_spells (h : s.Spells a ts) : s.readAll a = some ts := by
  have hscan := h [] nofun
  rw [List.append_nil] at hscan
  simpa [readAll, scan, s.ofRun?_nil] using hscan

theorem eq_nil_of_spells_empty (h : s.Spells "" ts) : ts = [] := by
  have hscan := readAll_of_spells h
  rw [readAll, String.toList_empty, scan, s.ofRun?_nil] at hscan
  exact (Option.some.inj hscan).symm

theorem spells_intercalate_cons {parts : List String} (hsep : s.Symbols sep [])
    (ha : s.Spells a ts) (hrest : s.Spells (sep.intercalate parts) us) :
    s.Spells (sep.intercalate (a :: parts)) (ts ++ us) := by
  cases parts with
  | nil =>
    rw [String.intercalate_nil] at hrest
    rw [String.intercalate_singleton, eq_nil_of_spells_empty hrest, List.append_nil]
    exact ha
  | cons b parts =>
    rw [String.intercalate_cons_cons]
    have hclosed := ha.append_symbols hsep
    rw [List.append_nil] at hclosed
    exact hclosed.append_spells hrest

theorem closes_intercalate {α : Type} {text : α → String} {tokens : α → List τ} {items : List α}
    (hsep : s.Literal sep []) (h : ∀ item ∈ items, s.Closes (text item) (tokens item)) :
    s.Closes (sep.intercalate (items.map text)) (items.flatMap tokens) := by
  induction items with
  | nil => exact closes_empty
  | cons item rest ih =>
    obtain ⟨hitem, hrest⟩ := List.forall_mem_cons.mp h
    cases rest with
    | nil =>
      rw [List.map_singleton, String.intercalate_singleton, List.flatMap_singleton]
      exact hitem
    | cons next rest =>
      rw [List.map_cons, List.map_cons, String.intercalate_cons_cons, List.flatMap_cons]
      have hfirst := hitem.append hsep.closes
      rw [List.append_nil] at hfirst
      exact hfirst.append (ih hrest)

theorem closes_join {α : Type} {text : α → String} {tokens : α → List τ} {items : List α}
    (h : ∀ item ∈ items, s.Closes (text item) (tokens item)) :
    s.Closes (String.join (items.map text)) (items.flatMap tokens) := by
  induction items with
  | nil => exact closes_empty
  | cons item rest ih =>
    obtain ⟨hitem, hrest⟩ := List.forall_mem_cons.mp h
    rw [List.map_cons, String.join_cons, List.flatMap_cons]
    exact hitem.append (ih hrest)

end Scanner

end WireQuery
