import WireQuery.Proofs.WireType.RoundTrip

/-!
# Modifiers around a core

A descriptor that is a core in modifiers is read modifier by modifier, the outermost first, up to
the first one that is refused. So of several defects the outermost is reported, and the core counts
only if no modifier is at fault.
-/

namespace WireQuery.WireType
set_option autoImplicit false

/-- What stands around a type: a pair of brackets, or a final `!`. -/
inductive Modifier where
  | list
  | nonNull
  deriving DecidableEq, Repr

namespace Modifier

def write : Modifier → String → String
  | list, text => "[" ++ text ++ "]"
  | nonNull, text => text ++ "!"

def apply : Modifier → WireType → WireType
  | list, t => .list t
  | nonNull, t => .nonNull t

end Modifier

/-- The descriptor that modifiers make of a core, the first modifier outermost. -/
def spelled (ms : List Modifier) (core : String) : String := ms.foldr Modifier.write core

/-- The type that modifiers make of a type. Unlike wrappings they may double a non-null modifier. -/
def modified (ms : List Modifier) (t : WireType) : WireType := ms.foldr Modifier.apply t

/-- The non-null modifier at a position is directly followed by another one. -/
def DoubledAt (ms : List Modifier) (i : Nat) : Prop :=
  ms[i]? = some .nonNull ∧ ms[i + 1]? = some .nonNull

def FirstDoubledAt (ms : List Modifier) (i : Nat) : Prop :=
  DoubledAt ms i ∧ ∀ earlier < i, ¬ DoubledAt ms earlier

/-- The list at a position has `outer` lists around it. -/
def ListAt (ms : List Modifier) (outer i : Nat) : Prop :=
  ms[i]? = some .list ∧ (ms.take i).count .list = outer

theorem exists_firstDoubledAt {ms : List Modifier} {i : Nat} (h : DoubledAt ms i) :
    ∃ first ≤ i, FirstDoubledAt ms first := by
  induction i using Nat.strongRecOn with
  | _ i ih =>
    by_cases hearlier : ∃ earlier < i, DoubledAt ms earlier
    · obtain ⟨earlier, hlt, hdoubled⟩ := hearlier
      obtain ⟨first, hle, hfirst⟩ := ih earlier hlt hdoubled
      exact ⟨first, by omega, hfirst⟩
    · refine ⟨i, Nat.le_refl i, h, ?_⟩
      intro earlier hlt hdoubled
      exact hearlier ⟨earlier, hlt, hdoubled⟩

/-- Among more than `outer` lists is one with exactly `outer` lists around it. -/
theorem exists_listAt {ms : List Modifier} {outer i : Nat}
    (h : outer < (ms.take i).count .list) : ∃ j < i, ListAt ms outer j := by
  induction i with
  | zero => simp at h
  | succ i ih =>
    by_cases hshorter : outer < (ms.take i).count .list
    · obtain ⟨j, hlt, hlist⟩ := ih hshorter
      exact ⟨j, by omega, hlist⟩
    · rw [List.take_add_one, List.count_append] at h
      cases hm : ms[i]? with
      | none => simp [hm] at h; omega
      | some m =>
        cases m with
        | nonNull => simp [hm] at h; omega
        | list =>
          simp only [hm, Option.toList_some, List.count_singleton_self] at h
          exact ⟨i, by omega, hm, by omega⟩

@[simp] theorem baseName_modified (ms : List Modifier) (t : WireType) :
    (modified ms t).baseName = t.baseName := by
  induction ms with
  | nil => rfl
  | cons m rest ih => cases m <;> exact ih

@[simp] theorem isNonNull_modified {ms : List Modifier} {core : String} :
    (modified ms (named core)).isNonNull = true ↔ ms.head? = some .nonNull := by
  cases ms with
  | nil => simp [modified, isNonNull]
  | cons m rest => cases m <;> simp [modified, Modifier.apply, isNonNull]

@[simp] theorem text_modified (ms : List Modifier) (core : String) :
    (modified ms (named core)).text = spelled ms core := by
  induction ms with
  | nil => rfl
  | cons m rest ih =>
    change ((m.apply (modified rest (named core))).text) = m.write (spelled rest core)
    rw [← ih]
    cases m <;> rfl

section Reading

variable {core : String} (bare : Bare core.toList)
include bare

/-- The reader goes through modifiers that are neither doubled nor too many. -/
theorem readFrom_modified_append (before after : List Modifier) {depth : Nat}
    (single : ∀ i < before.length, ¬ DoubledAt (before ++ after) i)
    (within : depth + before.count .list ≤ listLimit) :
    readFrom depth (modified (before ++ after) (named core)).text.toList =
      modified before <$> readFrom (depth + before.count .list)
        (modified after (named core)).text.toList := by
  induction before generalizing depth with
  | nil => exact (id_map _).symm
  | cons m rest ih =>
    have hbare : Bare (modified (rest ++ after) (named core)).baseName.toList := by
      simpa [baseName] using bare
    have hsingle : ∀ i < rest.length, ¬ DoubledAt (rest ++ after) i :=
      fun i hi => single (i + 1) (Nat.succ_lt_succ hi)
    cases m with
    | list =>
      rw [List.count_cons_self] at within
      have hdepth : depth + 1 + rest.count .list = depth + (rest.count .list + 1) := by omega
      have hwithin : depth + 1 + rest.count .list ≤ listLimit := by omega
      have hrest := ih hsingle hwithin
      change readFrom depth (list (modified (rest ++ after) (named core))).text.toList = _
      rw [toList_text_list, readFrom_brackets depth (balanced_zero_text hbare), if_neg (by omega),
        hrest, List.count_cons_self, hdepth, ← comp_map]
      rfl
    | nonNull =>
      have hcount : (Modifier.nonNull :: rest).count .list = rest.count .list :=
        List.count_cons_of_ne (by decide)
      rw [hcount] at within
      have hrest := ih hsingle within
      have hlast : (modified (rest ++ after) (named core)).text.toList.getLast? ≠ some '!' := by
        intro hl
        have hhead := isNonNull_modified.mp ((getLast?_text hbare).mp hl)
        apply single 0 (Nat.zero_lt_succ _)
        exact ⟨rfl, by rw [← hhead, List.head?_eq_getElem?]; rfl⟩
      change readFrom depth (nonNull (modified (rest ++ after) (named core))).text.toList = _
      rw [toList_text_nonNull, readFrom_bang, if_neg hlast, hrest, hcount, ← comp_map]
      rfl

theorem readFrom_modified (ms : List Modifier) (n : Nat) (single : ∀ i < n, ¬ DoubledAt ms i)
    (within : (ms.take n).count .list ≤ listLimit) :
    readFrom 0 (modified ms (named core)).text.toList =
      modified (ms.take n) <$> readFrom ((ms.take n).count .list)
        (modified (ms.drop n) (named core)).text.toList := by
  have hsingle : ∀ i < (ms.take n).length, ¬ DoubledAt (ms.take n ++ ms.drop n) i := by
    rw [List.take_append_drop]
    intro i hi
    apply single
    rw [List.length_take] at hi
    omega
  have hwithin : 0 + (ms.take n).count .list ≤ listLimit := by omega
  have h := readFrom_modified_append bare (ms.take n) (ms.drop n) hsingle hwithin
  rw [List.take_append_drop, Nat.zero_add] at h
  exact h

theorem readFrom_doubled {ms : List Modifier} {i : Nat} (first : FirstDoubledAt ms i)
    (within : (ms.take i).count .list ≤ listLimit) :
    readFrom 0 (modified ms (named core)).text.toList = .error .nestedNonNull := by
  obtain ⟨⟨houter, hinner⟩, single⟩ := first
  have hdrop : ms.drop i = .nonNull :: ms.drop (i + 1) := by
    obtain ⟨hi, heq⟩ := List.getElem?_eq_some_iff.mp houter
    rw [List.drop_eq_getElem_cons hi, heq]
  have hlast : (modified (ms.drop (i + 1)) (named core)).text.toList.getLast? = some '!' := by
    apply (getLast?_text (by simpa [baseName] using bare)).mpr
    simpa using hinner
  rw [readFrom_modified bare ms i single within, hdrop]
  change _ <$> readFrom _ (nonNull (modified (ms.drop (i + 1)) (named core))).text.toList = _
  rw [toList_text_nonNull, readFrom_bang, if_pos hlast]
  rfl

theorem readFrom_tooDeep {ms : List Modifier} {j : Nat} (excess : ListAt ms listLimit j)
    (single : ∀ i < j, ¬ DoubledAt ms i) :
    readFrom 0 (modified ms (named core)).text.toList = .error .tooDeep := by
  obtain ⟨hlist, hcount⟩ := excess
  have hdrop : ms.drop j = .list :: ms.drop (j + 1) := by
    obtain ⟨hj, heq⟩ := List.getElem?_eq_some_iff.mp hlist
    rw [List.drop_eq_getElem_cons hj, heq]
  have hbalanced : balanced 0 (modified (ms.drop (j + 1)) (named core)).text.toList = true :=
    balanced_zero_text (by simpa [baseName] using bare)
  rw [readFrom_modified bare ms j single (Nat.le_of_eq hcount), hdrop, hcount]
  change _ <$> readFrom _ (list (modified (ms.drop (j + 1)) (named core))).text.toList = _
  rw [toList_text_list, readFrom_brackets _ hbalanced, if_pos (Nat.lt_succ_self _)]
  rfl

theorem readFrom_core {ms : List Modifier} (single : ∀ i, ¬ DoubledAt ms i)
    (within : ms.count .list ≤ listLimit) :
    readFrom 0 (modified ms (named core)).text.toList =
      if core = "" then .error .empty
      else if Name.isValid core then .ok (modified ms (named core))
      else .error .invalidName := by
  have h := readFrom_modified bare ms ms.length fun i _ => single i
  rw [List.take_length, List.drop_length] at h
  rw [h within]
  change modified ms <$> readFrom _ core.toList = _
  simp only [readFrom_bare _ bare, String.ofList_toList, List.isEmpty_iff, String.toList_eq_nil_iff]
  change _ = if core = "" then _ else if Name.isValidChars core.toList then _ else _
  split
  · rfl
  · split <;> rfl

end Reading

theorem read_of_readFrom_error {descriptor : String} {defect : Defect}
    (h : readFrom 0 descriptor.toList = .error defect) :
    read descriptor = .error ⟨descriptor, defect⟩ := by
  rw [read, h]

/-- A core in modifiers is refused for the outermost defect. That is the first doubled non-null
modifier if it stands outside of the thirty-third list, or this list if it stands outside of the
former. If there is neither, the core alone decides. The refusal of any text at all carries that
text. -/
theorem read_spelled (ms : List Modifier) {core : String} (bare : Bare core.toList) :
    (∀ i, FirstDoubledAt ms i → (∀ j, ListAt ms 32 j → i < j) →
      read (spelled ms core) = .error ⟨spelled ms core, .nestedNonNull⟩) ∧
    (∀ j, ListAt ms 32 j → (∀ i, FirstDoubledAt ms i → j < i) →
      read (spelled ms core) = .error ⟨spelled ms core, .tooDeep⟩) ∧
    ((∀ i, ¬ DoubledAt ms i) → (∀ j, ¬ ListAt ms 32 j) →
      read (spelled ms core) =
        if core = "" then .error ⟨spelled ms core, .empty⟩
        else if Name.isValid core then .ok (modified ms (named core))
        else .error ⟨spelled ms core, .invalidName⟩) ∧
    ∀ descriptor m, read descriptor = .error m → m.descriptor = descriptor := by
  have hlimit : ∀ n, (∀ j < n, ¬ ListAt ms 32 j) → (ms.take n).count .list ≤ listLimit := by
    intro n hnone
    by_contra hexcess
    obtain ⟨j, hlt, hlist⟩ := exists_listAt (Nat.not_le.mp hexcess)
    exact hnone j hlt hlist
  rw [← text_modified]
  refine ⟨?_, ?_, ?_, ?_⟩
  · intro i first hbefore
    apply read_of_readFrom_error
    apply readFrom_doubled bare first
    apply hlimit
    intro j hlt hlist
    have hgt := hbefore j hlist
    omega
  · intro j excess hbefore
    apply read_of_readFrom_error
    apply readFrom_tooDeep bare excess
    intro i hlt hdoubled
    obtain ⟨first, hle, hfirst⟩ := exists_firstDoubledAt hdoubled
    have hgt := hbefore first hfirst
    omega
  · intro hsingle hnone
    have hcount := hlimit ms.length (fun j _ => hnone j)
    rw [List.take_length] at hcount
    rw [read, readFrom_core bare hsingle hcount]
    by_cases hempty : core = ""
    · rw [if_pos hempty, if_pos hempty]
    · rw [if_neg hempty, if_neg hempty]
      by_cases hvalid : Name.isValid core = true
      · rw [if_pos hvalid, if_pos hvalid]
      · rw [if_neg hvalid, if_neg hvalid]
  · exact fun _ _ => descriptor_of_read

/-- Thirty-three lists. -/
def tower : List Modifier := List.replicate 33 .list

theorem read_spelled_towers :
    FirstDoubledAt (.nonNull :: .nonNull :: tower) 0 ∧
      ListAt (tower ++ [.nonNull, .nonNull]) 32 32 ∧
      read (spelled (.nonNull :: .nonNull :: tower) "ID") =
        .error ⟨spelled (.nonNull :: .nonNull :: tower) "ID", .nestedNonNull⟩ ∧
      read (spelled (tower ++ [.nonNull, .nonNull]) "ID") =
        .error ⟨spelled (tower ++ [.nonNull, .nonNull]) "ID", .tooDeep⟩ ∧
      read "[]!" = .error ⟨"[]!", .empty⟩ := by
  have bare : Bare "ID".toList := ⟨by decide, by decide, by decide⟩
  have first : FirstDoubledAt (.nonNull :: .nonNull :: tower) 0 := ⟨⟨rfl, rfl⟩, nofun⟩
  have excess : ListAt (tower ++ [.nonNull, .nonNull]) 32 32 := ⟨rfl, by decide⟩
  refine ⟨first, excess, ?_, ?_, ?_⟩
  · apply (read_spelled _ bare).1 0 first
    intro j hlist
    apply Nat.pos_of_ne_zero
    rintro rfl
    cases hlist.1
  · apply (read_spelled _ bare).2.1 32 excess
    intro i hfirst
    by_contra hle
    have hlists : ∀ i < 33, (tower ++ [.nonNull, .nonNull])[i]? = some .list := by decide
    have hdoubled := hfirst.1.1
    rw [hlists i (by omega)] at hdoubled
    cases hdoubled
  · have hsingle : ∀ i, ¬ DoubledAt [.nonNull, .list] i := by
      rintro (_ | _ | i) ⟨houter, hinner⟩
      · cases hinner
      · cases houter
      · cases houter
    have hnone : ∀ j, ¬ ListAt [.nonNull, .list] 32 j := by
      rintro (_ | _ | j) ⟨hlist, hcount⟩
      · cases hlist
      · cases hcount
      · cases hlist
    have hempty : Bare "".toList := ⟨by decide, by decide, by decide⟩
    exact (read_spelled [.nonNull, .list] hempty).2.2.1 hsingle hnone

end WireQuery.WireType
