import Mathlib
import WireQuery.PascalCase
import WireQuery.Name

/-!
# Names in Pascal case

In Pascal case a name has characters of names only, and its first character that is no underscore
comes first. So it is a name again exactly if this character is a letter.

The lemmas on the case of letters come with the library as a whole only.
-/

namespace WireQuery
set_option autoImplicit false

namespace Name

/-- Whether the first character that is no underscore is a letter. -/
def isLettered (name : String) : Bool := (name.toList.find? (· != '_')).any Char.isAlpha

variable {c : Char}

theorem isPart_of_isAlpha (h : c.isAlpha = true) : isPart c = true := by
  simp [isPart, Char.isAlphanum, h]

theorem isPart_toUpper (h : isPart c = true) : isPart c.toUpper = true := by
  by_cases halpha : c.isAlpha = true
  · apply isPart_of_isAlpha
    rw [Char.isAlpha_toUpper_eq_isAlpha]
    exact halpha
  · have hlower : ¬ c.isLower = true := fun hlower => halpha (by simp [Char.isAlpha, hlower])
    rw [Char.toUpper_eq_of_not_isLower hlower]
    exact h

theorem isPart_toLower (h : isPart c = true) : isPart c.toLower = true := by
  by_cases halpha : c.isAlpha = true
  · apply isPart_of_isAlpha
    rw [Char.isAlpha_toLower_eq_isAlpha]
    exact halpha
  · have hupper : ¬ c.isUpper = true := fun hupper => halpha (by simp [Char.isAlpha, hupper])
    rw [Char.toLower_eq_of_not_isUpper hupper]
    exact h

theorem isStart_toUpper (h : c ≠ '_') : isStart c.toUpper = c.isAlpha := by
  have hne : c.toUpper ≠ '_' := by
    intro heq
    by_cases hlower : c.isLower = true
    · have hupper : c.toUpper.isUpper = true := by
        rw [Char.isUpper_toUpper_eq_isAlpha, Char.isAlpha, hlower, Bool.or_true]
      rw [heq] at hupper
      cases hupper
    · rw [Char.toUpper_eq_of_not_isLower hlower] at heq
      exact h heq
  rw [isStart, beq_eq_false_iff_ne.mpr hne, Bool.false_or, Char.isAlpha_toUpper_eq_isAlpha]

theorem isValidChars_iff {cs : List Char} :
    isValidChars cs = true ↔ cs.head?.any isStart = true ∧ ∀ c ∈ cs, isPart c = true := by
  cases cs with
  | nil => simp [isValidChars]
  | cons c rest =>
    rw [isValidChars, Bool.and_eq_true, List.all_eq_true, List.forall_mem_cons]
    exact ⟨fun h => ⟨h.1, isPart_of_isStart h.1, h.2⟩, fun h => ⟨h.1, h.2.2⟩⟩

end Name

namespace PascalCase

open Name (isPart)

/-- In names the underscore is the only separator. -/
theorem isSeparator_of_isPart {c : Char} (h : isPart c = true) :
    isSeparator c = (c == '_') := by
  have hdash : (c == '-') = false := by
    apply beq_eq_false_iff_ne.mpr
    rintro rfl
    cases h
  have hdot : (c == '.') = false := by
    apply beq_eq_false_iff_ne.mpr
    rintro rfl
    cases h
  rw [isSeparator, hdash, hdot, Bool.or_false, Bool.or_false]

theorem forall_mem_words {P : Char → Prop} {cs : List Char} (h : ∀ c ∈ cs, P c) :
    ∀ word ∈ words cs, ∀ c ∈ word, P c := by
  induction cs with
  | nil => simp [words]
  | cons c cs ih =>
    obtain ⟨hc, hcs⟩ := List.forall_mem_cons.mp h
    have hwords := ih hcs
    rw [words]
    split
    · exact List.forall_mem_cons.mpr ⟨nofun, hwords⟩
    · split
      · simp [hc]
      · next word rest heq =>
        rw [heq] at hwords
        obtain ⟨hword, hrest⟩ := List.forall_mem_cons.mp hwords
        exact List.forall_mem_cons.mpr ⟨List.forall_mem_cons.mpr ⟨hc, hword⟩, hrest⟩

theorem isPart_of_mem_capitalize {word : List Char} (h : ∀ c ∈ word, isPart c = true) :
    ∀ c ∈ capitalize word, isPart c = true := by
  cases word with
  | nil => exact nofun
  | cons c cs =>
    obtain ⟨hc, hcs⟩ := List.forall_mem_cons.mp h
    refine List.forall_mem_cons.mpr ⟨Name.isPart_toUpper hc, ?_⟩
    split
    · exact hcs
    · intro c hmem
      obtain ⟨small, hsmall, rfl⟩ := List.mem_map.mp hmem
      exact Name.isPart_toLower (hcs small hsmall)

theorem head?_flatMap_capitalize (cs : List Char) :
    ((words cs).flatMap capitalize).head? =
      (cs.find? (fun c => !isSeparator c)).map Char.toUpper := by
  induction cs with
  | nil => rfl
  | cons c cs ih =>
    rw [words]
    split
    · next h =>
      rw [List.flatMap_cons, List.find?_cons_of_neg (by simp [h]), ← ih]
      rfl
    · next h =>
      rw [List.find?_cons_of_pos (by simp [h])]
      split <;> rfl

end PascalCase

theorem isPart_of_mem_pascalCase {s : String} (h : ∀ c ∈ s.toList, Name.isPart c = true) :
    ∀ c ∈ (pascalCase s).toList, Name.isPart c = true := by
  intro c hc
  rw [pascalCase, String.toList_ofList] at hc
  obtain ⟨word, hword, hc⟩ := List.mem_flatMap.mp hc
  exact PascalCase.isPart_of_mem_capitalize (PascalCase.forall_mem_words h word hword) c hc

/-- A name in Pascal case is a name if a letter comes before any digit, and only then. -/
theorem isValid_pascalCase {name : String} (h : Name.isValid name = true) :
    Name.isValid (pascalCase name) = Name.isLettered name := by
  have hparts : ∀ c ∈ name.toList, Name.isPart c = true := fun _ => Name.isPart_of_mem h
  have hhead : (pascalCase name).toList.head? =
      (name.toList.find? (· != '_')).map Char.toUpper := by
    have hwordPart : ∀ c ∈ name.toList, (!PascalCase.isSeparator c) = (c != '_') := by
      intro c hc
      rw [PascalCase.isSeparator_of_isPart (hparts c hc)]
      rfl
    rw [pascalCase, String.toList_ofList, PascalCase.head?_flatMap_capitalize,
      List.find?_congr hwordPart]
  rw [Bool.eq_iff_iff, Name.isValid, Name.isValidChars_iff, hhead, Name.isLettered,
    and_iff_left (isPart_of_mem_pascalCase hparts)]
  cases hfound : name.toList.find? (· != '_') with
  | none => rfl
  | some c =>
    have hne : c ≠ '_' := by simpa using List.find?_some hfound
    rw [Option.map_some, Option.any_some, Option.any_some, Name.isStart_toUpper hne]

end WireQuery
