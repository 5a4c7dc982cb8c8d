import WireQuery.Name
import WireQuery.Proofs.Typings.FreshName
import WireQuery.Result.Decoder

/-!
# The texts of paths

A path by names can be told from its text. Neither `.` nor `[` occurs in a name, and the digits of
an index end at `]`, so the text falls apart into its steps in one way only.
-/

namespace WireQuery.ResultPath
set_option autoImplicit false

def Named (path : ResultPath) : Prop := ∀ key, .key key ∈ path → Name.isValid key = true

/-- The characters of a step after other steps. -/
def stepChars : PathStep → List Char
  | .key key => '.' :: key.toList
  | .index index => '[' :: (index.repr.toList ++ [']'])

def stepsChars (path : ResultPath) : List Char := path.flatMap stepChars

/-- The characters do not go on with a name or a number. -/
def Stops (cs : List Char) : Prop := ∀ c rest, cs = c :: rest → Name.isPart c = false

theorem Named.tail {step : PathStep} {path : ResultPath} (h : Named (step :: path)) : Named path :=
  fun key hkey => h key (List.mem_cons_of_mem step hkey)

theorem Named.append {path : ResultPath} (h : Named path) {step : PathStep}
    (hstep : ∀ key, step = .key key → Name.isValid key = true) : Named (path ++ [step]) := by
  intro key hkey
  rcases List.mem_append.mp hkey with hkey | hkey
  · exact h key hkey
  · exact hstep key (List.mem_singleton.mp hkey).symm

@[simp] theorem toList_stepText (step : PathStep) : (stepText step).toList = stepChars step := by
  cases step <;> simp [stepText, stepChars]

theorem toList_join_steps (path : ResultPath) :
    (String.join (path.map stepText)).toList = stepsChars path := by
  induction path with
  | nil => simp [stepsChars]
  | cons step rest ih => simp [String.join_cons, stepsChars, ih]

theorem isPart_of_mem_repr {n : Nat} {c : Char} (h : c ∈ n.repr.toList) :
    Name.isPart c = true := by
  rw [Nat.toList_repr] at h
  have hdigit := Nat.isDigit_of_mem_toDigits (by decide) (by decide) h
  simp [Name.isPart, Char.isAlphanum, hdigit]

theorem stops_stepsChars (path : ResultPath) : Stops (stepsChars path) := by
  intro c rest heq
  cases path with
  | nil => cases heq
  | cons step path =>
    cases step <;> cases heq <;> decide

/-- A run of word characters and what stops it are known from both together. -/
theorem eq_of_append_stops {a b r s : List Char} (ha : ∀ c ∈ a, Name.isPart c = true)
    (hb : ∀ c ∈ b, Name.isPart c = true) (hr : Stops r) (hs : Stops s)
    (h : a ++ r = b ++ s) : a = b ∧ r = s := by
  have hstop : ∀ {cs : List Char}, Stops cs → cs.takeWhile Name.isPart = [] := by
    intro cs hcs
    cases cs with
    | nil => rfl
    | cons c rest => rw [List.takeWhile_cons, hcs c rest rfl, if_neg Bool.false_ne_true]
  have htake := congrArg (List.takeWhile Name.isPart) h
  rw [List.takeWhile_append_of_pos ha, List.takeWhile_append_of_pos hb, hstop hr, hstop hs,
    List.append_nil, List.append_nil] at htake
  rw [htake] at h
  exact ⟨htake, List.append_cancel_left h⟩

theorem isPart_of_isValid {name : String} (h : Name.isValid name = true) :
    ∀ c ∈ name.toList, Name.isPart c = true :=
  fun _ hc => Name.isPart_of_mem h hc

theorem stepsChars_injective {path other : ResultPath} (hpath : path.Named) (hother : other.Named)
    (h : stepsChars path = stepsChars other) : path = other := by
  induction path generalizing other with
  | nil =>
    cases other with
    | nil => rfl
    | cons step rest => cases step <;> cases h
  | cons step path ih =>
    cases other with
    | nil => cases step <;> cases h
    | cons step' other =>
      -- The first character tells the kind of the first step, and what follows its text stops it.
      cases step with
      | key key =>
        cases step' with
        | index index => simp [stepsChars, stepChars] at h
        | key key' =>
          have hchars : key.toList ++ stepsChars path = key'.toList ++ stepsChars other :=
            (List.cons.inj h).2
          obtain ⟨hkey, hrest⟩ := eq_of_append_stops
            (isPart_of_isValid (hpath key List.mem_cons_self))
            (isPart_of_isValid (hother key' List.mem_cons_self))
            (stops_stepsChars path) (stops_stepsChars other) hchars
          rw [String.toList_inj.mp hkey, ih hpath.tail hother.tail hrest]
      | index index =>
        cases step' with
        | key key => simp [stepsChars, stepChars] at h
        | index index' =>
          have hchars : index.repr.toList ++ (']' :: stepsChars path) =
              index'.repr.toList ++ (']' :: stepsChars other) := by
            simpa [stepsChars, stepChars] using h
          have hclose : ∀ cs : List Char, Stops (']' :: cs) := by
            intro cs c rest heq
            cases heq
            decide
          obtain ⟨hindex, hrest⟩ := eq_of_append_stops (fun _ => isPart_of_mem_repr)
            (fun _ => isPart_of_mem_repr) (hclose _) (hclose _) hchars
          rw [Typings.repr_injective (String.toList_inj.mp hindex),
            ih hpath.tail hother.tail (List.cons.inj hrest).2]

open Classical in
/-- A text that begins with a name lacks the `.` of its first step, and no other text does. -/
theorem stepsChars_eq {path : ResultPath} (h : path.Named) :
    stepsChars path =
      if Stops path.text.toList then path.text.toList else '.' :: path.text.toList := by
  cases path with
  | nil => rw [if_pos] <;> simp [Stops, text, stepsChars]
  | cons step rest =>
    cases step with
    | key key =>
      have htext : (text (.key key :: rest)).toList = key.toList ++ stepsChars rest := by
        rw [text, String.toList_append, toList_join_steps]
      have hstarts : ¬ Stops (text (.key key :: rest)).toList := by
        have hvalid := h key List.mem_cons_self
        intro hstops
        rw [htext] at hstops
        cases hkey : key.toList with
        | nil => exact Name.ne_nil_of_isValidChars hvalid hkey
        | cons c cs =>
          rw [hkey] at hstops
          have hpart := isPart_of_isValid hvalid c (hkey ▸ List.mem_cons_self)
          rw [hstops c _ rfl] at hpart
          cases hpart
      rw [if_neg hstarts, htext]
      rfl
    | index index =>
      have htext : (text (.index index :: rest)).toList = stepsChars (.index index :: rest) := by
        rw [text, toList_join_steps]
      rw [htext, if_pos (stops_stepsChars _)]

/-- Paths by names with the same text are the same. -/
theorem text_injective {path other : ResultPath} (hpath : path.Named) (hother : other.Named)
    (h : path.text = other.text) : path = other := by
  apply stepsChars_injective hpath hother
  rw [stepsChars_eq hpath, stepsChars_eq hother, h]

end WireQuery.ResultPath
