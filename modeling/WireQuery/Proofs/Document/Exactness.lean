import WireQuery.Proofs.Document.Parts

/-!
# What the reader of documents reads

The reader reads exactly the tokens of well-formed documents. Where it stands inside open fields,
the tokens that it has consumed are those of the fields and of what is selected before them.
-/

namespace WireQuery
set_option autoImplicit false

open Token

namespace Selection

/-- The tokens behind a reader inside open fields. -/
def consumed : List (Field × List Selection) → List Selection → List Token
  | [], done => tokensAll done
  | (field, before) :: outer, done =>
    consumed outer before ++ field.tokens ++ .mark .openBrace :: tokensAll done

@[simp] theorem consumed_append (opened : List (Field × List Selection)) (done : List Selection)
    (s : Selection) : consumed opened (done ++ [s]) = consumed opened done ++ s.tokens := by
  cases opened with
  | nil => simp [consumed, tokensAll_append, tokensAll]
  | cons entry outer => simp [consumed, tokensAll_append, tokensAll]

/-- What is kept with the open fields is well-formed. -/
def OpenedWellFormed (opened : List (Field × List Selection)) : Prop :=
  ∀ entry ∈ opened, entry.1.WellFormed ∧ AllWellFormed entry.2

theorem of_readTokens {opened : List (Field × List Selection)} {done selections : List Selection}
    {tokens rest : List Token} (hvalid : Valid tokens) (hopened : OpenedWellFormed opened)
    (hdone : AllWellFormed done) (h : readTokens opened done tokens = some (selections, rest)) :
    consumed opened done ++ tokens = tokensAll selections ++ .mark .closeBrace :: rest ∧
      selections ≠ [] ∧ AllWellFormed selections := by
  fun_induction readTokens opened done tokens with
  | case1 opened done => cases h
  | case2 opened done rest' hempty => cases h
  | case3 done rest' hfilled =>
    cases h
    exact ⟨rfl, by simpa using hfilled, hdone⟩
  | case4 done rest' hfilled field before outer ih =>
    obtain ⟨⟨hfield, hbefore⟩, houter⟩ := List.forall_mem_cons.mp hopened
    have hnested : AllWellFormed [nested field done] :=
      ⟨⟨hfield, by simpa using hfilled, hdone⟩, trivial⟩
    obtain ⟨htokens, hselections⟩ :=
      ih hvalid.tail houter (allWellFormed_append hbefore hnested) h
    refine ⟨?_, hselections⟩
    rw [← htokens, consumed_append]
    simp [consumed, tokens]
  | case5 opened done t ts hclose hnone => cases h
  | case6 opened done t ts hclose field rest' hread ih =>
    obtain ⟨hsplit, hfield⟩ := Field.of_readTokens hvalid hread
    rw [hsplit] at hvalid
    obtain ⟨htokens, hselections⟩ :=
      ih hvalid.right.tail (List.forall_mem_cons.mpr ⟨⟨hfield, hdone⟩, hopened⟩) trivial h
    refine ⟨?_, hselections⟩
    rw [← htokens, hsplit]
    simp [consumed, tokensAll]
  | case7 opened done t ts hclose field rest' hleaf hread ih =>
    obtain ⟨hsplit, hfield⟩ := Field.of_readTokens hvalid hread
    rw [hsplit] at hvalid
    have hone : AllWellFormed [leaf field] := ⟨hfield, trivial⟩
    obtain ⟨htokens, hselections⟩ :=
      ih hvalid.right hopened (allWellFormed_append hdone hone) (by simpa [hread] using h)
    refine ⟨?_, hselections⟩
    rw [← htokens, hsplit, consumed_append]
    simp [tokens]

/-- No mark but a closing brace comes next. -/
def EndsSelection (rest : List Token) : Prop :=
  ∀ m, rest.head? = some (.mark m) → m = .closeBrace

theorem endsSelection_tokens (s : Selection) (rest : List Token) :
    EndsSelection (s.tokens ++ rest) := by
  obtain ⟨text, tail, htail⟩ := s.field.exists_tokens_eq
  cases s with
  | leaf field =>
    intro m hm
    rw [tokens, show field.tokens = _ from htail] at hm
    cases hm
  | nested field selections =>
    intro m hm
    rw [tokens, show field.tokens = _ from htail] at hm
    cases hm

theorem endsSelection_tokensAll (selections : List Selection) (rest : List Token) :
    EndsSelection (tokensAll selections ++ .mark .closeBrace :: rest) := by
  cases selections with
  | nil =>
    intro m hm
    cases hm
    rfl
  | cons s selections =>
    rw [tokensAll, List.append_assoc]
    exact endsSelection_tokens s _

/-- After a field the reader enters its selections, if a brace follows, or keeps it as a leaf. -/
theorem readTokens_field {field : Field} {tokens rest : List Token}
    (opened : List (Field × List Selection)) (done : List Selection) :
    Field.readTokens (field.tokens ++ tokens) = some (field, rest) →
      readTokens opened done (field.tokens ++ tokens) =
        match rest with
        | .mark .openBrace :: inner => readTokens ((field, done) :: opened) [] inner
        | _ => readTokens opened (done ++ [leaf field]) rest := by
  intro hread
  obtain ⟨text, tail, htail⟩ := field.exists_tokens_eq
  rw [htail, List.cons_append] at hread ⊢
  rw [readTokens]
  split
  · next hnone =>
    rw [hread] at hnone
    cases hnone
  · next field' inner hsome =>
    rw [hread] at hsome
    cases hsome
    rfl
  · next field' rest' hleaf hsome =>
    rw [hread] at hsome
    cases hsome
    split
    · next inner => exact absurd rfl (hleaf inner)
    · rfl
  · intro hclose
    cases hclose

theorem readTokens_leaf {field : Field} (h : field.WellFormed)
    (opened : List (Field × List Selection)) (done : List Selection) {rest : List Token}
    (hrest : EndsSelection rest) :
    readTokens opened done (field.tokens ++ rest) =
      readTokens opened (done ++ [leaf field]) rest := by
  have hcolon : rest.head? ≠ some (.mark .colon) := fun hm => nomatch hrest _ hm
  have hparen : rest.head? ≠ some (.mark .openParen) := fun hm => nomatch hrest _ hm
  rw [readTokens_field opened done (Field.readTokens_tokens h hcolon hparen)]
  split
  · cases hrest _ rfl
  · rfl

theorem readTokens_open {field : Field} (h : field.WellFormed)
    (opened : List (Field × List Selection)) (done : List Selection) (rest : List Token) :
    readTokens opened done (field.tokens ++ .mark .openBrace :: rest) =
      readTokens ((field, done) :: opened) [] rest := by
  rw [readTokens_field opened done (Field.readTokens_tokens h (by simp) (by simp))]

theorem readTokens_close {done : List Selection} (hdone : done ≠ []) (field : Field)
    (before : List Selection) (outer : List (Field × List Selection)) (rest : List Token) :
    readTokens ((field, before) :: outer) done (.mark .closeBrace :: rest) =
      readTokens outer (before ++ [nested field done]) rest := by
  rw [readTokens, if_neg (by simpa using hdone)]

mutual

/-- The reader goes over the tokens of a selection and keeps the selection. -/
theorem readTokens_tokens : ∀ (s : Selection), s.WellFormed →
    ∀ (opened : List (Field × List Selection)) (done : List Selection) (rest : List Token),
      EndsSelection rest →
        readTokens opened done (s.tokens ++ rest) = readTokens opened (done ++ [s]) rest
  | leaf field, h, opened, done, rest, hrest => readTokens_leaf h opened done hrest
  | nested field selections, ⟨hfield, hfilled, hall⟩, opened, done, rest, _ => by
    have hshape : (nested field selections).tokens ++ rest = field.tokens ++
        .mark .openBrace :: (tokensAll selections ++ .mark .closeBrace :: rest) := by
      simp [tokens]
    rw [hshape, readTokens_open hfield, readTokens_tokensAll selections hall, List.nil_append,
      readTokens_close hfilled]

theorem readTokens_tokensAll : ∀ (selections : List Selection), AllWellFormed selections →
    ∀ (opened : List (Field × List Selection)) (done : List Selection) (rest : List Token),
      readTokens opened done (tokensAll selections ++ .mark .closeBrace :: rest) =
        readTokens opened (done ++ selections) (.mark .closeBrace :: rest)
  | [], _, opened, done, rest => by rw [tokensAll, List.nil_append, List.append_nil]
  | s :: selections, ⟨hs, hall⟩, opened, done, rest => by
    rw [tokensAll, List.append_assoc,
      readTokens_tokens s hs opened done _ (endsSelection_tokensAll selections rest),
      readTokens_tokensAll selections hall, List.append_assoc]
    rfl

end

end Selection

namespace Document

theorem ofTokens?_tokens {document : Document} (h : document.WellFormed) :
    ofTokens? document.tokens = some document := by
  obtain ⟨operationName, definitions, selections⟩ := document
  let body := parenthesizedTokens VariableDefinition.tokens definitions ++
    .mark .openBrace :: (Selection.tokensAll selections ++ [.mark .closeBrace])
  have hoperation : readOperation ((operationName.map Token.name).toList ++ body) =
      (operationName, body) := by
    cases operationName with
    | some name => rfl
    | none => cases definitions <;> rfl
  have hdefinitions : VariableDefinition.reader.parenthesized body = some (definitions,
      .mark .openBrace :: (Selection.tokensAll selections ++ [.mark .closeBrace])) :=
    TokenReader.parenthesized_tokens VariableDefinition.reader_exact h.definitions (by simp)
  have hselections : Selection.readTokens [] []
      (Selection.tokensAll selections ++ [.mark .closeBrace]) = some (selections, []) := by
    rw [Selection.readTokens_tokensAll selections h.selections, Selection.readTokens,
      if_neg (by simpa using h.populated)]
    rfl
  have hshape : (Document.mk operationName definitions selections).tokens =
      .name "query" :: ((operationName.map Token.name).toList ++ body) := by
    simp [tokens, body]
  rw [hshape, ofTokens?, hoperation, readBody, hdefinitions]
  simp [hselections]

theorem of_readOperation {tokens : List Token} (hvalid : Valid tokens) :
    tokens = ((readOperation tokens).1.map Token.name).toList ++ (readOperation tokens).2 ∧
      ∀ text, (readOperation tokens).1 = some text → Name.isValid text = true := by
  unfold readOperation
  split
  · refine ⟨rfl, ?_⟩
    intro text htext
    cases htext
    exact hvalid.head
  · exact ⟨rfl, by simp⟩

theorem of_readBody {operationName : Option String} {tokens : List Token} {document : Document}
    (hvalid : Valid tokens) (h : readBody operationName tokens = some document) :
    tokens = parenthesizedTokens VariableDefinition.tokens document.definitions ++
        .mark .openBrace :: Selection.tokensAll document.selections ++ [.mark .closeBrace] ∧
      document.operationName = operationName ∧
      (∀ d ∈ document.definitions, d.WellFormed) ∧ document.selections ≠ [] ∧
      Selection.AllWellFormed document.selections := by
  obtain ⟨⟨definitions, rest⟩, hread, hselect⟩ := Option.bind_eq_some_iff.mp h
  obtain ⟨rfl, hdefinitions⟩ :=
    TokenReader.of_parenthesized VariableDefinition.reader_exact hvalid hread
  dsimp only at hselect
  split at hselect
  · next rest =>
    split at hselect
    · next selections hselections =>
      cases hselect
      have hopened : Selection.OpenedWellFormed [] := by simp [Selection.OpenedWellFormed]
      have hdone : Selection.AllWellFormed [] := trivial
      obtain ⟨htokens, hfilled, hall⟩ :=
        Selection.of_readTokens hvalid.right.tail hopened hdone hselections
      have hrest : rest = Selection.tokensAll selections ++ [.mark .closeBrace] := htokens
      refine ⟨?_, rfl, hdefinitions, hfilled, hall⟩
      rw [hrest]
      simp
    · cases hselect
  · cases hselect

theorem of_ofTokens? {tokens : List Token} {document : Document} (hvalid : Valid tokens)
    (h : ofTokens? tokens = some document) :
    tokens = document.tokens ∧ document.WellFormed := by
  unfold ofTokens? at h
  split at h
  · next rest =>
    obtain ⟨hrest, hname⟩ := of_readOperation hvalid.tail
    have hbody : Valid (readOperation rest).2 := by
      have htail := hvalid.tail
      rw [hrest] at htail
      exact htail.right
    obtain ⟨htokens, hoperation, hdefinitions, hfilled, hall⟩ := of_readBody hbody h
    constructor
    · rw [htokens, ← hoperation] at hrest
      rw [Document.tokens, hrest]
      simp
    · refine ⟨?_, hdefinitions, hfilled, hall⟩
      rw [hoperation]
      exact hname
  · cases h

/-- The reader accepts exactly the texts that have the tokens of a well-formed document. -/
theorem read_eq_some {text : String} {document : Document} :
    read text = some document ↔
      Token.scanner.readAll text = some document.tokens ∧ document.WellFormed := by
  constructor
  · intro h
    obtain ⟨tokens, hscan, htokens⟩ := Option.bind_eq_some_iff.mp h
    obtain ⟨rfl, hdocument⟩ := of_ofTokens? (valid_readAll hscan) htokens
    exact ⟨hscan, hdocument⟩
  · rintro ⟨hscan, hdocument⟩
    exact Option.bind_eq_some_iff.mpr ⟨_, hscan, ofTokens?_tokens hdocument⟩

end Document

end WireQuery
