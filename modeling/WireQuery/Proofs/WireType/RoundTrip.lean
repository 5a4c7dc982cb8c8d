import WireQuery.Name
import WireQuery.Proofs.Outcome
import WireQuery.Proofs.WireType.Form

/-!
# Reading and writing wire types

The reader undoes the printer. One lemma says what the reader does at each form of a text: a final
`!`, a pair of enclosing brackets, a name. A text that is read is the text of the type it gives,
and the text of every expressible type is read back.
-/

namespace WireQuery.WireType
set_option autoImplicit false

@[simp] theorem stripLast?_concat (c : Char) (cs : List Char) :
    stripLast? c (cs ++ [c]) = some cs := by
  simp [stripLast?]

theorem stripLast?_eq_none {c : Char} {cs : List Char} (h : cs.getLast? ≠ some c) :
    stripLast? c cs = none := by
  simp [stripLast?, h]

theorem eq_concat_of_stripLast? {c : Char} {cs rest : List Char}
    (h : stripLast? c cs = some rest) : cs = rest ++ [c] := by
  unfold stripLast? at h
  split at h
  · next hl =>
    obtain ⟨front, rfl⟩ := List.getLast?_eq_some_iff.mp hl
    rw [List.dropLast_concat] at h
    cases h
    rfl
  · cases h

theorem readFrom_bang (depth : Nat) (cs : List Char) :
    readFrom depth (cs ++ ['!']) =
      if cs.getLast? = some '!' then .error .nestedNonNull else nonNull <$> readFrom depth cs := by
  rw [readFrom, if_neg (by simp)]
  split
  · next rest hb =>
    rw [stripLast?_concat] at hb
    cases hb
    rfl
  · next hb =>
    rw [stripLast?_concat] at hb
    cases hb

theorem readFrom_brackets (depth : Nat) {inner : List Char} (hb : balanced 0 inner = true) :
    readFrom depth ('[' :: (inner ++ [']'])) =
      if listLimit < depth + 1 then .error .tooDeep else list <$> readFrom (depth + 1) inner := by
  have hlast : stripLast? '!' ('[' :: (inner ++ [']'])) = none := by
    apply stripLast?_eq_none
    simp [List.getLast?_cons]
  rw [readFrom, if_neg (by simp)]
  split
  · next rest hs =>
    rw [hlast] at hs
    cases hs
  · rw [if_pos List.head?_cons, List.tail_cons]
    split
    · next he =>
      rw [stripLast?_concat] at he
      cases he
    · next inner' he =>
      rw [stripLast?_concat] at he
      cases he
      rw [if_pos hb]

/-- Characters in which nothing is a modifier: there are no brackets and no final `!`. -/
structure Bare (cs : List Char) : Prop where
  unopened : '[' ∉ cs
  unclosed : ']' ∉ cs
  unmarked : cs.getLast? ≠ some '!'

theorem bare_of_isValidChars {cs : List Char} (h : Name.isValidChars cs = true) : Bare cs where
  unopened := Name.not_mem_of_isPart h (by decide)
  unclosed := Name.not_mem_of_isPart h (by decide)
  unmarked := fun hl => Name.not_mem_of_isPart h (by decide) (List.mem_of_getLast? hl)

theorem readFrom_bare (depth : Nat) {cs : List Char} (h : Bare cs) :
    readFrom depth cs =
      if cs.isEmpty then .error .empty
      else if Name.isValidChars cs then .ok (named (String.ofList cs))
      else .error .invalidName := by
  have hbang : stripLast? '!' cs = none := stripLast?_eq_none h.unmarked
  have hhead : cs.head? ≠ some '[' := fun hl => h.unopened (List.mem_of_head? hl)
  have hany : cs.any (fun c => c == '[' || c == ']') = false := by
    rw [List.any_eq_false]
    intro c hc hbracket
    simp only [Bool.or_eq_true, beq_iff_eq] at hbracket
    rcases hbracket with rfl | rfl
    · exact h.unopened hc
    · exact h.unclosed hc
  rw [readFrom]
  split
  · rfl
  · split
    · next rest hs =>
      rw [hbang] at hs
      cases hs
    · rw [hany, if_neg Bool.false_ne_true]

@[simp] theorem balanced_open (opened : Nat) (cs : List Char) :
    balanced opened ('[' :: cs) = balanced (opened + 1) cs := by
  rw [balanced.eq_def]
  rfl

@[simp] theorem balanced_close (opened : Nat) (cs : List Char) :
    balanced (opened + 1) (']' :: cs) = balanced opened cs := by
  rw [balanced.eq_def]
  rfl

theorem balanced_skip {c : Char} (hopen : c ≠ '[') (hclose : c ≠ ']') (opened : Nat)
    (cs : List Char) : balanced opened (c :: cs) = balanced opened cs := by
  rw [balanced.eq_def]
  simp only [if_neg hopen, if_neg hclose]

theorem getLast?_text {t : WireType} (hbare : Bare t.baseName.toList) :
    t.text.toList.getLast? = some '!' ↔ t.isNonNull = true := by
  cases t with
  | named name =>
    constructor
    · intro hl
      exact absurd hl hbare.unmarked
    · intro h
      cases h
  | list element => simp [text, isNonNull, List.getLast?_cons]
  | nonNull inner => simp [text, isNonNull]

/-- The brackets of a text close, whatever follows. -/
theorem balanced_text {t : WireType} (hbare : Bare t.baseName.toList) (opened : Nat)
    (rest : List Char) :
    balanced opened (t.text.toList ++ rest) = balanced opened rest := by
  induction t generalizing opened rest with
  | named name =>
    have hskip : ∀ cs : List Char, '[' ∉ cs → ']' ∉ cs →
        balanced opened (cs ++ rest) = balanced opened rest := by
      intro cs unopened unclosed
      induction cs with
      | nil => rfl
      | cons c cs ih =>
        simp only [List.mem_cons, not_or] at unopened unclosed
        rw [List.cons_append, balanced_skip (Ne.symm unopened.1) (Ne.symm unclosed.1)]
        exact ih unopened.2 unclosed.2
    exact hskip _ hbare.unopened hbare.unclosed
  | list element ih =>
    have hopen : (list element).text.toList ++ rest =
        '[' :: (element.text.toList ++ (']' :: rest)) := by
      simp [text]
    rw [hopen, balanced_open, ih hbare (opened + 1), balanced_close]
  | nonNull inner ih =>
    have hbang : (nonNull inner).text.toList ++ rest = inner.text.toList ++ ('!' :: rest) := by
      simp [text]
    rw [hbang, ih hbare opened, balanced_skip (by decide) (by decide)]

/-- What stands inside the brackets of a list is balanced by itself. -/
theorem balanced_zero_text {t : WireType} (hbare : Bare t.baseName.toList) :
    balanced 0 t.text.toList = true := by
  have h := balanced_text hbare 0 []
  rw [List.append_nil] at h
  rw [h]
  rfl

@[simp] theorem toList_text_list (element : WireType) :
    (list element).text.toList = '[' :: (element.text.toList ++ [']']) := by
  simp [text]

@[simp] theorem toList_text_nonNull (inner : WireType) :
    (nonNull inner).text.toList = inner.text.toList ++ ['!'] := by
  simp [text]

theorem readFrom_text {t : WireType} (hname : Name.isValid t.baseName = true)
    (hform : t.Canonical) {depth : Nat} (hdepth : depth + t.listDepth ≤ listLimit) :
    readFrom depth t.text.toList = .ok t := by
  induction t generalizing depth with
  | named name =>
    have hvalid : Name.isValidChars name.toList = true := hname
    change readFrom depth name.toList = .ok (named name)
    rw [readFrom_bare depth (bare_of_isValidChars hvalid),
      if_neg (by simpa using Name.ne_nil_of_isValidChars hvalid), if_pos hvalid,
      String.ofList_toList]
  | list element ih =>
    have hbalanced : balanced 0 element.text.toList = true :=
      balanced_zero_text (bare_of_isValidChars hname)
    simp only [listDepth] at hdepth
    rw [toList_text_list, readFrom_brackets depth hbalanced, if_neg (by omega),
      ih hname hform (by omega)]
    rfl
  | nonNull inner ih =>
    have hlast : inner.text.toList.getLast? ≠ some '!' := by
      intro hl
      have hinner := (getLast?_text (t := inner) (bare_of_isValidChars hname)).mp hl
      rw [hform.1] at hinner
      cases hinner
    rw [toList_text_nonNull, readFrom_bang, if_neg hlast, ih hname hform.2 hdepth]
    rfl

theorem form_of_readFrom {depth : Nat} {cs : List Char} {t : WireType}
    (hdepth : depth ≤ listLimit) (h : readFrom depth cs = .ok t) :
    t.text.toList = cs ∧ Name.isValid t.baseName = true ∧ t.Canonical ∧
      depth + t.listDepth ≤ listLimit := by
  fun_induction readFrom depth cs generalizing t with
  | case1 depth cs hempty => cases h
  | case2 depth cs hempty rest hs hbang => cases h
  | case3 depth cs hempty rest hs hbang ih =>
    obtain ⟨inner, hinner, rfl⟩ := Outcome.map_eq_ok.mp h
    obtain ⟨rfl, hname, hform, hlists⟩ := ih hdepth hinner
    refine ⟨?_, hname, ⟨?_, hform⟩, hlists⟩
    · rw [eq_concat_of_stripLast? hs]
      simp [text]
    · rw [getLast?_text (bare_of_isValidChars hname)] at hbang
      exact Bool.eq_false_iff.mpr hbang
  | case4 depth cs hempty hs hopen he => cases h
  | case5 depth cs hempty hs hopen inner he hdeep => cases h
  | case6 depth cs hempty hs hopen inner he hdeep hb ih =>
    obtain ⟨element, helement, rfl⟩ := Outcome.map_eq_ok.mp h
    obtain ⟨rfl, hname, hform, hlists⟩ := ih (Nat.not_lt.mp hdeep) helement
    obtain ⟨rest, rfl⟩ := List.head?_eq_some_iff.mp hopen
    refine ⟨?_, hname, hform, ?_⟩
    · rw [List.tail_cons] at he
      rw [eq_concat_of_stripLast? he]
      simp [text]
    · simp only [listDepth]
      omega
  | case7 depth cs hempty hs hopen inner he hdeep hb => cases h
  | case8 depth cs hempty hs hopen hbracket => cases h
  | case9 depth cs hempty hs hopen hbracket hvalid =>
    cases h
    refine ⟨by simp [text], ?_, trivial, hdepth⟩
    simpa [Name.isValid, baseName] using hvalid
  | case10 depth cs hempty hs hopen hbracket hvalid => cases h

theorem readFrom_zero_eq_ok_iff {cs : List Char} {t : WireType} :
    readFrom 0 cs = .ok t ↔ t.text.toList = cs ∧ t.Expressible := by
  constructor
  · intro h
    obtain ⟨htext, hname, hform, hlists⟩ := form_of_readFrom (Nat.zero_le _) h
    exact ⟨htext, hname, hform, by omega⟩
  · rintro ⟨rfl, ht⟩
    have hdepth := ht.depth
    exact readFrom_text ht.name ht.canonical (by omega)

theorem read_eq_ok {descriptor : String} {t : WireType} :
    read descriptor = .ok t ↔ t.text = descriptor ∧ t.Expressible := by
  have hread : read descriptor = .ok t ↔ readFrom 0 descriptor.toList = .ok t := by
    unfold read
    split
    · next type hr => simp [hr]
    · next defect hr => simp [hr]
  rw [hread, readFrom_zero_eq_ok_iff, String.toList_inj]

/-- A descriptor spells a type exactly if it is the type's text and the type is expressible. The
types that are built from a name are read back from their texts, and there are no other types to
be read. -/
theorem read_inverse_text :
    (∀ (descriptor : String) (t : WireType), read descriptor = .ok t ↔
      t.text = descriptor ∧ Name.isValid t.baseName = true ∧ t.Canonical ∧ t.listDepth ≤ 32) ∧
    (∀ (name : String) (ws : List Wrapping), Name.isValid name = true → ws.count .list ≤ 32 →
      read (built name ws).text = .ok (built name ws)) ∧
    (∀ (descriptor : String) (t : WireType), read descriptor = .ok t →
      ∃ name ws, Name.isValid name = true ∧ ws.count .list ≤ 32 ∧ t = built name ws) := by
  refine ⟨?_, ?_, ?_⟩
  · intro descriptor t
    rw [read_eq_ok]
    constructor
    · rintro ⟨htext, ht⟩
      exact ⟨htext, ht.name, ht.canonical, ht.depth⟩
    · rintro ⟨htext, hname, hform, hdepth⟩
      exact ⟨htext, hname, hform, hdepth⟩
  · intro name ws hname hdepth
    exact read_eq_ok.mpr ⟨rfl, expressible_built hname hdepth⟩
  · intro descriptor t h
    obtain ⟨-, ht⟩ := read_eq_ok.mp h
    obtain ⟨ws, hws⟩ := exists_built ht.canonical
    refine ⟨t.baseName, ws, ht.name, ?_, hws⟩
    have hdepth := ht.depth
    rw [hws, listDepth_built] at hdepth
    exact hdepth

theorem read_nested_lists :
    Name.isValid "ID" = true ∧ [Wrapping.required, .list, .list, .required].count .list ≤ 32 ∧
      read "[[ID!]]!" = .ok (built "ID" [.required, .list, .list, .required]) ∧
      ∃ name ws, Name.isValid name = true ∧ ws.count .list ≤ 32 ∧
        nonNull (list (list (nonNull (named "ID")))) = built name ws := by
  have hname : Name.isValid "ID" = true := by decide
  have hdepth : [Wrapping.required, .list, .list, .required].count .list ≤ 32 := by decide
  have hread := read_inverse_text.2.1 "ID" _ hname hdepth
  exact ⟨hname, hdepth, hread, read_inverse_text.2.2 _ _ hread⟩

/-- Brackets that do not belong together are no list. -/
example : read "[A][B]" = .error ⟨"[A][B]", .unbalancedBrackets⟩ := by decide +kernel

end WireQuery.WireType
