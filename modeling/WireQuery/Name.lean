/-!
# Names

Field keys, wire names, argument names, variable names and named types share one grammar:
an ASCII letter or an underscore, then ASCII letters, digits and underscores. So a name is not
empty and has none of the characters that the wire protocol sets around names.
-/

namespace WireQuery.Name
set_option autoImplicit false

def isStart (c : Char) : Bool := c == '_' || c.isAlpha

def isPart (c : Char) : Bool := c == '_' || c.isAlphanum

/-- Whether the characters spell a name. -/
def isValidChars : List Char → Bool
  | [] => false
  | c :: cs => isStart c && cs.all isPart

/-- Whether `s` is a name of the wire protocol. -/
def isValid (s : String) : Bool := isValidChars s.toList

theorem isPart_of_isStart {c : Char} (h : isStart c = true) : isPart c = true := by
  simp only [isStart, isPart, Bool.or_eq_true] at h ⊢
  rcases h with h | h
  · exact Or.inl h
  · exact Or.inr (by simp [Char.isAlphanum, h])

theorem ne_nil_of_isValidChars {cs : List Char} (h : isValidChars cs = true) : cs ≠ [] := by
  rintro rfl
  simp [isValidChars] at h

theorem isPart_of_mem {cs : List Char} (h : isValidChars cs = true) {c : Char} (hc : c ∈ cs) :
    isPart c = true := by
  cases cs with
  | nil => simp at hc
  | cons a rest =>
    simp only [isValidChars, Bool.and_eq_true] at h
    rcases List.mem_cons.mp hc with rfl | hc
    · exact isPart_of_isStart h.1
    · exact List.all_eq_true.mp h.2 c hc

/-- A character outside the alphabet of names is not in any name. -/
theorem not_mem_of_isPart {cs : List Char} (h : isValidChars cs = true) {c : Char}
    (hc : isPart c = false) : c ∉ cs := by
  intro hm
  rw [isPart_of_mem h hm] at hc
  cases hc

end WireQuery.Name
