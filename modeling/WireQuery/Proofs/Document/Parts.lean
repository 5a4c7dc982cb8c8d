import WireQuery.Proofs.Document.Reader

/-!
# Reading the parts of documents

The readers of types, declarations, arguments and fields read exactly the tokens of well-formed
ones. What follows must not be taken for a part of them, such as a `!` after a type.
-/

namespace WireQuery
set_option autoImplicit false

open Token

namespace TokenReader

variable {α : Type} {item : TokenReader α} {write : α → List Token} {Good : α → Prop}

/-- The reader reads what is written for good items. -/
structure Exact (item : TokenReader α) (write : α → List Token) (Good : α → Prop) : Prop where
  sound : ∀ {tokens a rest}, Valid tokens → item.read tokens = some (a, rest) →
    tokens = write a ++ rest ∧ Good a
  complete : ∀ {a rest}, Good a → rest.head? ≠ some (.mark .bang) →
    item.read (write a ++ rest) = some (a, rest)
  starts : ∀ a rest, (write a ++ rest).head? ≠ some (.mark .bang) ∧
    (write a ++ rest).head? ≠ some (.mark .closeParen)

@[simp] theorem itemsOf_close (item : TokenReader α) (rest : List Token) :
    item.itemsOf (.mark .closeParen :: rest) = some ([], rest) := by
  rw [itemsOf, if_pos List.head?_cons]
  rfl

theorem itemsOf_cons {tokens rest : List Token} {a : α}
    (hopen : tokens.head? ≠ some (.mark .closeParen)) (hread : item.read tokens = some (a, rest)) :
    item.itemsOf tokens = (fun r => (a :: r.1, r.2)) <$> item.itemsOf rest := by
  rw [itemsOf, if_neg hopen]
  split
  · next hnone =>
    rw [hread] at hnone
    cases hnone
  · next a' rest' hsome =>
    rw [hread] at hsome
    cases hsome
    cases item.itemsOf rest <;> rfl

theorem itemsOf_tokens (h : Exact item write Good) {items : List α} (hitems : ∀ a ∈ items, Good a)
    (rest : List Token) :
    item.itemsOf (items.flatMap write ++ .mark .closeParen :: rest) = some (items, rest) := by
  induction items with
  | nil => exact itemsOf_close item rest
  | cons a items ih =>
    have hnext : (items.flatMap write ++ .mark .closeParen :: rest).head? ≠
        some (.mark .bang) := by
      cases items with
      | nil => simp
      | cons b items =>
        rw [List.flatMap_cons, List.append_assoc]
        exact (h.starts b _).1
    rw [List.flatMap_cons, List.append_assoc, itemsOf_cons (h.starts a _).2
      (h.complete (hitems a List.mem_cons_self) hnext),
      ih fun b hb => hitems b (List.mem_cons_of_mem a hb)]
    rfl

theorem of_itemsOf (h : Exact item write Good) {tokens rest : List Token} {items : List α}
    (hvalid : Valid tokens) (hread : item.itemsOf tokens = some (items, rest)) :
    tokens = items.flatMap write ++ .mark .closeParen :: rest ∧ ∀ a ∈ items, Good a := by
  fun_induction itemsOf item tokens generalizing items with
  | case1 tokens hclose =>
    cases hread
    obtain ⟨tail, rfl⟩ := List.head?_eq_some_iff.mp hclose
    simp
  | case2 tokens hclose hnone => cases hread
  | case3 tokens hclose a rest' ha ih =>
    obtain ⟨⟨items', rest''⟩, hitems, heq⟩ := Option.bind_eq_some_iff.mp hread
    cases heq
    obtain ⟨rfl, hgood⟩ := h.sound hvalid ha
    obtain ⟨rfl, hall⟩ := ih hvalid.right hitems
    constructor
    · simp
    · intro b hb
      rcases List.mem_cons.mp hb with rfl | hb
      · exact hgood
      · exact hall b hb

theorem parenthesized_tokens (h : Exact item write Good) {items : List α}
    (hitems : ∀ a ∈ items, Good a) {rest : List Token}
    (hrest : rest.head? ≠ some (.mark .openParen)) :
    item.parenthesized (parenthesizedTokens write items ++ rest) = some (items, rest) := by
  cases items with
  | nil =>
    rw [parenthesizedTokens, List.nil_append]
    unfold parenthesized
    split
    · exact absurd rfl hrest
    · rfl
  | cons a items =>
    have hshape : parenthesizedTokens write (a :: items) ++ rest =
        .mark .openParen :: ((a :: items).flatMap write ++ .mark .closeParen :: rest) := by
      simp [parenthesizedTokens]
    rw [hshape, parenthesized, itemsOf_tokens h hitems]
    rfl

theorem of_parenthesized (h : Exact item write Good) {tokens rest : List Token} {items : List α}
    (hvalid : Valid tokens) (hread : item.parenthesized tokens = some (items, rest)) :
    tokens = parenthesizedTokens write items ++ rest ∧ ∀ a ∈ items, Good a := by
  unfold parenthesized at hread
  split at hread
  · next tokens =>
    obtain ⟨⟨items', rest'⟩, hitems, hfilled⟩ := Option.bind_eq_some_iff.mp hread
    obtain ⟨rfl, hall⟩ := of_itemsOf h hvalid.tail hitems
    dsimp only at hfilled
    split at hfilled
    · cases hfilled
    · next hne =>
      cases hfilled
      cases items with
      | nil => exact absurd rfl hne
      | cons a items => exact ⟨by simp [parenthesizedTokens], hall⟩
  · cases hread
    exact ⟨rfl, by simp⟩

end TokenReader

namespace WireType

theorem readBang_of_ne {t : WireType} {rest : List Token}
    (hrest : rest.head? ≠ some (.mark .bang)) : readBang t rest = (t, rest) := by
  unfold readBang
  split
  · exact absurd rfl hrest
  · rfl

/-- A type and what follows it are read as the type without its `!` and then the `!`. -/
theorem readTokens_nullable {t : WireType} (h : t.WellFormed) (rest : List Token) :
    readTokens (t.tokens ++ rest) =
      if t.isNonNull then some (t, rest) else some (readBang t rest) := by
  obtain ⟨hname, hform⟩ := h
  induction t generalizing rest with
  | named name => rfl
  | list element ih =>
    have hshape : (list element).tokens ++ rest =
        .mark .openBracket :: (element.tokens ++ .mark .closeBracket :: rest) := by
      simp [tokens]
    have helement : readTokens (element.tokens ++ .mark .closeBracket :: rest) =
        some (element, .mark .closeBracket :: rest) := by
      rw [ih _ hname hform, readBang_of_ne (by simp), ite_self]
    rw [hshape, readTokens, helement]
    rfl
  | nonNull inner ih =>
    have hshape : (nonNull inner).tokens ++ rest = inner.tokens ++ .mark .bang :: rest := by
      simp [tokens]
    rw [hshape, ih _ hname hform.2, hform.1]
    rfl

theorem of_readBang {t t' : WireType} {tokens rest : List Token} (hform : t.Canonical)
    (hnullable : t.isNonNull = false) (h : readBang t tokens = (t', rest)) :
    t.tokens ++ tokens = t'.tokens ++ rest ∧ t'.Canonical ∧ t'.baseName = t.baseName := by
  unfold readBang at h
  split at h
  · cases h
    exact ⟨by simp [WireType.tokens], ⟨hnullable, hform⟩, rfl⟩
  · cases h
    exact ⟨rfl, hform, rfl⟩

theorem of_readTokens {tokens rest : List Token} {t : WireType} (hvalid : Valid tokens)
    (h : readTokens tokens = some (t, rest)) : tokens = t.tokens ++ rest ∧ t.WellFormed := by
  fun_induction readTokens tokens generalizing t rest with
  | case1 name rest' =>
    obtain ⟨htokens, hform, hbase⟩ := of_readBang (t := named name) trivial rfl (Option.some.inj h)
    refine ⟨htokens, ?_, hform⟩
    rw [hbase]
    exact hvalid.head
  | case2 rest' element rest'' hread ih =>
    obtain ⟨rfl, helement⟩ := ih hvalid.tail hread
    obtain ⟨htokens, hform, hbase⟩ :=
      of_readBang (t := list element) helement.canonical rfl (Option.some.inj h)
    refine ⟨?_, ?_, hform⟩
    · rw [← htokens]
      simp [WireType.tokens]
    · rw [hbase]
      exact helement.name
  | case3 => cases h
  | case4 => cases h

end WireType

theorem VariableDefinition.reader_exact :
    VariableDefinition.reader.Exact VariableDefinition.tokens VariableDefinition.WellFormed where
  sound := by
    intro tokens d rest hvalid h
    simp only [VariableDefinition.reader] at h
    split at h
    · next name tokens =>
      obtain ⟨⟨type, rest'⟩, hread, heq⟩ := Option.bind_eq_some_iff.mp h
      cases heq
      obtain ⟨rfl, htype⟩ := WireType.of_readTokens hvalid.tail.tail.tail hread
      exact ⟨rfl, hvalid.tail.head, htype⟩
    · cases h
  complete := by
    intro d rest h hrest
    simp only [VariableDefinition.reader, VariableDefinition.tokens, List.cons_append,
      WireType.readTokens_nullable h.type, WireType.readBang_of_ne hrest, ite_self]
    rfl
  starts := by
    intro d rest
    simp [VariableDefinition.tokens]

theorem Argument.reader_exact : Argument.reader.Exact Argument.tokens Argument.WellFormed where
  sound := by
    intro tokens a rest hvalid h
    simp only [Argument.reader] at h
    split at h
    · next name variableName tokens =>
      cases h
      exact ⟨rfl, hvalid.head, hvalid.tail.tail.tail.head⟩
    · cases h
  complete := by
    intro a rest _ _
    rfl
  starts := by
    intro a rest
    simp [Argument.tokens]

namespace Field

theorem readTokens_tokens {field : Field} (h : field.WellFormed) {rest : List Token}
    (hcolon : rest.head? ≠ some (.mark .colon)) (hparen : rest.head? ≠ some (.mark .openParen)) :
    readTokens (field.tokens ++ rest) = some (field, rest) := by
  obtain ⟨name, aliasName, arguments⟩ := field
  have harguments := TokenReader.parenthesized_tokens Argument.reader_exact h.arguments hparen
  cases aliasName with
  | some aliasName =>
    have hshape : (Field.mk name (some aliasName) arguments).tokens ++ rest =
        .name aliasName :: .mark .colon :: .name name ::
          (parenthesizedTokens Argument.tokens arguments ++ rest) := by
      simp [tokens, aliasTokens]
    rw [hshape]
    exact readArguments_eq_some.mpr ⟨arguments, harguments, rfl⟩
  | none =>
    have hshape : (Field.mk name none arguments).tokens ++ rest =
        .name name :: (parenthesizedTokens Argument.tokens arguments ++ rest) := by
      simp [tokens, aliasTokens]
    rw [hshape]
    unfold readTokens
    split
    · next aliasName name' rest' heq =>
      -- An argument list starts with a parenthesis, so a colon could only come from `rest`.
      exfalso
      cases arguments with
      | nil =>
        cases heq
        exact hcolon rfl
      | cons a arguments => simp [parenthesizedTokens] at heq
    · next name' rest' _ heq =>
      cases heq
      exact readArguments_eq_some.mpr ⟨arguments, harguments, rfl⟩
    · next hname => exact absurd rfl (hname name _)

theorem of_readTokens {tokens rest : List Token} {field : Field} (hvalid : Valid tokens)
    (h : readTokens tokens = some (field, rest)) :
    tokens = field.tokens ++ rest ∧ field.WellFormed := by
  unfold readTokens at h
  split at h
  · next aliasName name tokens =>
    obtain ⟨arguments, hread, rfl⟩ := readArguments_eq_some.mp h
    obtain ⟨rfl, hall⟩ :=
      TokenReader.of_parenthesized Argument.reader_exact hvalid.tail.tail.tail hread
    refine ⟨by simp [Field.tokens, aliasTokens], hvalid.tail.tail.head, ?_, hall⟩
    intro text htext
    cases htext
    exact hvalid.head
  · next name tokens _ =>
    obtain ⟨arguments, hread, rfl⟩ := readArguments_eq_some.mp h
    obtain ⟨rfl, hall⟩ := TokenReader.of_parenthesized Argument.reader_exact hvalid.tail hread
    refine ⟨by simp [Field.tokens, aliasTokens], hvalid.head, ?_, hall⟩
    intro text htext
    cases htext
  · cases h

theorem exists_tokens_eq (field : Field) : ∃ text tail, field.tokens = .name text :: tail := by
  obtain ⟨name, aliasName, arguments⟩ := field
  cases aliasName with
  | none => exact ⟨name, _, rfl⟩
  | some aliasName => exact ⟨aliasName, _, rfl⟩

end Field

end WireQuery
