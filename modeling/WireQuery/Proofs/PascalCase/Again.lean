import WireQuery.Proofs.PascalCase

/-!
# Pascal case of Pascal case

What is in Pascal case has no separator left, so a second time it is judged as a single word. It
stays as it is if it has a small letter. Otherwise the capitals of its words are taken for those of
one word and lowered, so it stays only if no letter comes behind its first character. A third time
nothing changes any more.
-/

namespace WireQuery
set_option autoImplicit false

namespace PascalCase

/-- Whether a word has a small letter once it has its capital: one behind its first character, or,
if the word has no small letter at all, any letter there, which is lowered. -/
def givesSmall : List Char → Bool
  | [] => false
  | c :: cs => cs.any Char.isLower || (!c.isLower && cs.any Char.isAlpha)

/-- The characters that are no separators. -/
def unseparated (cs : List Char) : List Char := cs.filter fun c => !isSeparator c

theorem isAlpha_eq_false_of_isSeparator {c : Char} (h : isSeparator c = true) :
    c.isAlpha = false := by
  simp only [isSeparator, Bool.or_eq_true, beq_iff_eq] at h
  rcases h with (rfl | rfl) | rfl <;> rfl

theorem isSeparator_toUpper {c : Char} (h : isSeparator c = false) :
    isSeparator c.toUpper = false := by
  by_cases hlower : c.isLower = true
  · apply Bool.eq_false_iff.mpr
    intro hseparator
    have halpha := isAlpha_eq_false_of_isSeparator hseparator
    rw [Char.isAlpha_toUpper_eq_isAlpha, Char.isAlpha, hlower, Bool.or_true] at halpha
    cases halpha
  · rw [Char.toUpper_eq_of_not_isLower hlower]
    exact h

theorem isSeparator_toLower {c : Char} (h : isSeparator c = false) :
    isSeparator c.toLower = false := by
  by_cases hupper : c.isUpper = true
  · apply Bool.eq_false_iff.mpr
    intro hseparator
    have halpha := isAlpha_eq_false_of_isSeparator hseparator
    rw [Char.isAlpha_toLower_eq_isAlpha, Char.isAlpha, hupper, Bool.true_or] at halpha
    cases halpha
  · rw [Char.toLower_eq_of_not_isUpper hupper]
    exact h

@[simp] theorem flatten_words (cs : List Char) : (words cs).flatten = unseparated cs := by
  induction cs with
  | nil => rfl
  | cons c cs ih =>
    rw [words]
    split
    · next h =>
      rw [List.flatten_cons, List.nil_append, ih, unseparated, unseparated,
        List.filter_cons_of_neg (by simp [h])]
    · next h =>
      have hcons : unseparated (c :: cs) = c :: unseparated cs :=
        List.filter_cons_of_pos (by simp [h])
      rw [hcons, ← ih]
      split <;> simp_all

theorem not_isSeparator_of_mem_words {cs word : List Char} (hword : word ∈ words cs) {c : Char}
    (hc : c ∈ word) : isSeparator c = false := by
  have hmem : c ∈ unseparated cs := by
    rw [← flatten_words]
    exact List.mem_flatten_of_mem hword hc
  simpa using (List.mem_filter.mp hmem).2

/-- Without separators there is one word. -/
theorem words_eq_singleton {cs : List Char} (h : ∀ c ∈ cs, isSeparator c = false) :
    words cs = [cs] := by
  induction cs with
  | nil => rfl
  | cons c cs ih =>
    obtain ⟨hc, hcs⟩ := List.forall_mem_cons.mp h
    rw [words, ih hcs, hc]
    rfl

@[simp] theorem any_isLower_capitalize (word : List Char) :
    (capitalize word).any Char.isLower = givesSmall word := by
  cases word with
  | nil => rfl
  | cons c cs =>
    rw [capitalize, givesSmall, List.any_cons, Char.isLower_toUpper_eq_false, Bool.false_or]
    by_cases hsmall : (c :: cs).any Char.isLower = true
    · rw [if_pos hsmall]
      rw [List.any_cons] at hsmall
      cases hc : c.isLower <;> simp_all
    · rw [if_neg hsmall, List.any_map]
      obtain ⟨hc, hcs⟩ := Bool.or_eq_false_iff.mp (Bool.eq_false_iff.mpr hsmall)
      have halpha : Char.isLower ∘ Char.toLower = Char.isAlpha :=
        funext Char.isLower_toLower_eq_isAlpha
      rw [halpha, hc]
      change _ = (cs.any Char.isLower || _)
      rw [hcs]
      rfl

/-- Letters stay letters. -/
@[simp] theorem map_isAlpha_capitalize (word : List Char) :
    (capitalize word).map Char.isAlpha = word.map Char.isAlpha := by
  cases word with
  | nil => rfl
  | cons c cs =>
    have hlowered : Char.isAlpha ∘ Char.toLower = Char.isAlpha :=
      funext Char.isAlpha_toLower_eq_isAlpha
    rw [capitalize, List.map_cons, List.map_cons, Char.isAlpha_toUpper_eq_isAlpha]
    split
    · rfl
    · rw [List.map_map, hlowered]

theorem not_isSeparator_of_mem_capitalize {word : List Char}
    (h : ∀ c ∈ word, isSeparator c = false) : ∀ c ∈ capitalize word, isSeparator c = false := by
  cases word with
  | nil => exact nofun
  | cons c cs =>
    obtain ⟨hc, hcs⟩ := List.forall_mem_cons.mp h
    refine List.forall_mem_cons.mpr ⟨isSeparator_toUpper hc, ?_⟩
    split
    · exact hcs
    · intro d hd
      obtain ⟨capital, hcapital, rfl⟩ := List.mem_map.mp hd
      exact isSeparator_toLower (hcs capital hcapital)

/-- A word that has its capital changes if it has capitals only, more than the first. -/
theorem capitalize_eq_self_iff {word : List Char} (h : ∀ c ∈ word.head?, c.toUpper = c) :
    capitalize word = word ↔
      word.any Char.isLower = true ∨ ∀ c ∈ word.tail, c.isAlpha = false := by
  cases word with
  | nil => simp [capitalize]
  | cons c cs =>
    have hc : c.toUpper = c := h c rfl
    rw [capitalize, hc, List.cons.injEq, List.tail_cons]
    by_cases hsmall : (c :: cs).any Char.isLower = true
    · simp [hsmall]
    · have hsame : cs.map Char.toLower = cs ↔ ∀ d ∈ cs, d.toLower = d := by
        simpa using List.map_inj_left (l := cs) (f := Char.toLower) (g := id)
      rw [if_neg hsmall, eq_self_iff_true, true_and, or_iff_right hsmall, hsame]
      rw [Bool.not_eq_true, List.any_eq_false] at hsmall
      apply forall₂_congr
      intro d hd
      have hlower : d.isLower = false := by simpa using hsmall d (List.mem_cons_of_mem c hd)
      rw [Char.isAlpha, hlower, Bool.or_false]
      constructor
      · intro heq
        rw [← heq]
        exact Char.isUpper_toLower_eq_false d
      · intro hupper
        exact Char.toLower_eq_of_not_isUpper (by simp [hupper])

theorem givesSmall_of_capital {word : List Char} (h : ∀ c ∈ word.head?, c.toUpper = c) :
    givesSmall word = true ∨ ∀ c ∈ word.tail, c.isAlpha = false := by
  cases word with
  | nil => exact Or.inr nofun
  | cons c cs =>
    have hc : c.isLower = false := by
      rw [← h c rfl]
      exact Char.isLower_toUpper_eq_false c
    by_cases halpha : cs.any Char.isAlpha = true
    · simp [givesSmall, hc, halpha]
    · exact Or.inr (by simpa using halpha)

/-- The words of a text with their capitals. -/
def joined (cs : List Char) : List Char := (words cs).flatMap capitalize

theorem not_isSeparator_of_mem_joined {cs : List Char} :
    ∀ c ∈ joined cs, isSeparator c = false := by
  intro c hc
  obtain ⟨word, hword, hc⟩ := List.mem_flatMap.mp hc
  exact not_isSeparator_of_mem_capitalize (fun _ => not_isSeparator_of_mem_words hword) c hc

@[simp] theorem unseparated_joined (cs : List Char) : unseparated (joined cs) = joined cs := by
  apply List.filter_eq_self.mpr
  intro c hc
  rw [not_isSeparator_of_mem_joined c hc]
  rfl

@[simp] theorem words_joined (cs : List Char) : words (joined cs) = [joined cs] :=
  words_eq_singleton not_isSeparator_of_mem_joined

theorem joined_joined (cs : List Char) : joined (joined cs) = capitalize (joined cs) := by
  rw [joined, words_joined, List.flatMap_singleton]

theorem toUpper_head_joined (cs : List Char) : ∀ c ∈ (joined cs).head?, c.toUpper = c := by
  intro c hc
  rw [joined, head?_flatMap_capitalize] at hc
  obtain ⟨first, -, rfl⟩ := Option.mem_map.mp hc
  exact Char.toUpper_toUpper_eq_toUpper first

@[simp] theorem any_isLower_joined (cs : List Char) :
    (joined cs).any Char.isLower = (words cs).any givesSmall := by
  simp [joined, List.any_flatMap]

@[simp] theorem map_isAlpha_joined (cs : List Char) :
    (joined cs).map Char.isAlpha = (unseparated cs).map Char.isAlpha := by
  rw [joined, List.map_flatMap, ← flatten_words, List.map_flatten, List.flatMap_def]
  exact congrArg List.flatten (List.map_congr_left fun word _ => map_isAlpha_capitalize word)

/-- No letter comes behind the first character of the joined words, if there is none in the text. -/
theorem forall_mem_tail_joined {cs : List Char} :
    (∀ c ∈ (joined cs).tail, c.isAlpha = false) ↔
      ∀ c ∈ (unseparated cs).tail, c.isAlpha = false := by
  have htails : (joined cs).tail.map Char.isAlpha = (unseparated cs).tail.map Char.isAlpha := by
    simp [List.map_tail]
  have hview : ∀ word : List Char, (∀ c ∈ word, c.isAlpha = false) ↔
      ∀ alpha ∈ word.map Char.isAlpha, alpha = false := by simp
  rw [hview, hview, htails]

theorem joined_joined_eq_iff (cs : List Char) :
    joined (joined cs) = joined cs ↔
      (words cs).any givesSmall = true ∨ ∀ c ∈ (unseparated cs).tail, c.isAlpha = false := by
  rw [joined_joined, capitalize_eq_self_iff (toUpper_head_joined cs), any_isLower_joined,
    forall_mem_tail_joined]

end PascalCase

open PascalCase

@[simp] theorem toList_pascalCase (s : String) : (pascalCase s).toList = joined s.toList := by
  simp [pascalCase, joined]

theorem pascalCase_eq_iff {s t : String} :
    pascalCase s = pascalCase t ↔ joined s.toList = joined t.toList := by
  simp [← String.toList_inj]

/-- A second time Pascal case changes a text exactly if none of its words gives a small letter,
while a letter comes behind its first character. A third time it changes nothing. -/
theorem pascalCase_settles (s : String) :
    (pascalCase (pascalCase s) = pascalCase s ↔
      (words s.toList).any givesSmall = true ∨
        ∀ c ∈ (unseparated s.toList).tail, c.isAlpha = false) ∧
    pascalCase (pascalCase (pascalCase s)) = pascalCase (pascalCase s) := by
  have hagain : ∀ t : String, pascalCase (pascalCase t) = pascalCase t ↔
      (words t.toList).any givesSmall = true ∨
        ∀ c ∈ (unseparated t.toList).tail, c.isAlpha = false := by
    intro t
    rw [pascalCase_eq_iff, toList_pascalCase, joined_joined_eq_iff]
  refine ⟨hagain s, (hagain (pascalCase s)).mpr ?_⟩
  simpa using givesSmall_of_capital (toUpper_head_joined s.toList)

/-- Joined, the single letters of `A_B` are taken for a word of capitals, which is lowered. -/
theorem pascalCase_capitals_joined :
    pascalCase "A_B" = "AB" ∧ pascalCase "AB" = "Ab" ∧
      ¬ ∀ s, pascalCase (pascalCase s) = pascalCase s := by
  have hjoined : pascalCase "A_B" = "AB" := by decide
  have hlowered : pascalCase "AB" = "Ab" := by decide
  refine ⟨hjoined, hlowered, ?_⟩
  intro h
  have hsame := h "A_B"
  rw [hjoined, hlowered] at hsame
  exact absurd hsame (by decide)

end WireQuery
