import WireQuery.Json.Reader
import WireQuery.Proofs.Outcome

/-!
# Written JSON is read back

A value without numbers is read back from either of its texts, as long as it opens no more brackets
inside each other than a text may. Both texts list their items and members alike, with blanks that
the reader skips, so one argument serves both.
-/

namespace WireQuery.Json
set_option autoImplicit false

/-! ## What can be read back -/

/-- No number occurs in the value. -/
inductive Numberless : Json → Prop where
  | null : Numberless .null
  | bool (b : Bool) : Numberless (.bool b)
  | string (s : String) : Numberless (.string s)
  | array {items : List Json} (each : ∀ item ∈ items, Numberless item) :
      Numberless (.array items)
  | object {members : List (String × Json)} (each : ∀ member ∈ members, Numberless member.2) :
      Numberless (.object members)

mutual

/-- The most brackets that the text of a value opens inside each other. -/
def nesting : Json → Nat
  | .array items => nestingOfItems items + 1
  | .object members => nestingOfMembers members + 1
  | _ => 0

def nestingOfItems : List Json → Nat
  | [] => 0
  | item :: rest => max item.nesting (nestingOfItems rest)

def nestingOfMembers : List (String × Json) → Nat
  | [] => 0
  | member :: rest => max member.2.nesting (nestingOfMembers rest)

end

theorem nestingOfItems_le_iff {items : List Json} {n : Nat} :
    nestingOfItems items ≤ n ↔ ∀ item ∈ items, item.nesting ≤ n := by
  induction items with
  | nil => simp [nestingOfItems]
  | cons item rest ih => rw [nestingOfItems, Nat.max_le, List.forall_mem_cons, ih]

theorem nestingOfMembers_le_iff {members : List (String × Json)} {n : Nat} :
    nestingOfMembers members ≤ n ↔ ∀ member ∈ members, member.2.nesting ≤ n := by
  induction members with
  | nil => simp [nestingOfMembers]
  | cons member rest ih => rw [nestingOfMembers, Nat.max_le, List.forall_mem_cons, ih]

/-! ## Strings -/

theorem hexValue?_hexDigit : ∀ n < 32,
    hexValue? (hexDigit (n / 16)) = some (n / 16) ∧ hexValue? (hexDigit n) = some (n % 16) := by
  decide

/-- A control character is what its escape in hexadecimal digits stands for. -/
theorem readEscape_control {c : Char} (h : c.toNat < 0x20) (cs : List Char) :
    readEscape ('u' :: '0' :: '0' :: hexDigit (c.toNat / 16) :: hexDigit c.toNat :: cs) =
      .ok (c, cs) := by
  obtain ⟨hhigh, hlow⟩ := hexValue?_hexDigit c.toNat h
  have hzero : hexValue? '0' = some 0 := by decide
  have hunit : ((0 * 16 + 0) * 16 + c.toNat / 16) * 16 + c.toNat % 16 = c.toNat := by omega
  have hhex : readHex4 ('0' :: '0' :: hexDigit (c.toNat / 16) :: hexDigit c.toNat :: cs) =
      .ok (c.toNat, cs) := by
    rw [readHex4, hzero, hhigh, hlow]
    dsimp only
    rw [hunit]
  rw [readEscape, if_pos rfl, readUnicodeEscape]
  refine Outcome.bind_eq_ok.mpr ⟨(c.toNat, cs), hhex, ?_⟩
  dsimp only
  rw [if_neg (by omega), if_neg (by omega), Char.ofNat_toNat]
  rfl

theorem readChars_escape (c : Char) {steps : Nat} {cs rest more : List Char}
    (h : readChars steps cs = .ok (more, rest)) :
    readChars (steps + 1) (escape c ++ cs) = .ok (c :: more, rest) := by
  -- Behind a backslash stands what the reader takes for the character; any other character
  -- stands for itself.
  have hescaped : ∀ {tail : List Char}, readEscape tail = .ok (c, cs) →
      readChars (steps + 1) ('\\' :: tail) = .ok (c :: more, rest) := by
    intro tail hc
    rw [readChars]
    refine Outcome.bind_eq_ok.mpr ⟨(c, cs), hc, ?_⟩
    exact Outcome.bind_eq_ok.mpr ⟨(more, rest), h, rfl⟩
  unfold escape
  split
  · next hc => exact hescaped (by rw [hc]; rfl)
  split
  · next hc => exact hescaped (by rw [hc]; rfl)
  split
  · next hc => exact hescaped (by rw [hc]; rfl)
  split
  · next hc => exact hescaped (by rw [hc]; rfl)
  split
  · next hc => exact hescaped (by rw [hc]; rfl)
  split
  · next hc => exact hescaped (by rw [hc]; rfl)
  split
  · next hc => exact hescaped (by rw [hc]; rfl)
  split
  · next hcontrol => exact hescaped (readEscape_control hcontrol cs)
  · next hquote hbackslash _ _ _ _ _ hcontrol =>
    rw [List.singleton_append, readChars]
    dsimp only
    rw [if_neg hquote, if_neg hbackslash, if_neg hcontrol]
    exact Outcome.bind_eq_ok.mpr ⟨(more, rest), h, rfl⟩

theorem readChars_flatMap_escape {cs : List Char} {steps : Nat} (h : cs.length < steps)
    (rest : List Char) :
    readChars steps (cs.flatMap escape ++ '"' :: rest) = .ok (cs, rest) := by
  induction cs generalizing steps with
  | nil =>
    obtain ⟨steps, rfl⟩ := Nat.exists_eq_succ_of_ne_zero (Nat.ne_of_gt h)
    rfl
  | cons c cs ih =>
    obtain ⟨steps, rfl⟩ := Nat.exists_eq_succ_of_ne_zero (Nat.ne_zero_of_lt h)
    rw [List.flatMap_cons, List.append_assoc]
    exact readChars_escape c (ih (Nat.lt_of_succ_lt_succ h))

theorem escape_ne_nil (c : Char) : escape c ≠ [] := by
  unfold escape
  repeat' split
  all_goals exact List.cons_ne_nil _ _

theorem length_le_flatMap_escape (cs : List Char) : cs.length ≤ (cs.flatMap escape).length := by
  induction cs with
  | nil => exact Nat.le_refl 0
  | cons c cs ih =>
    have hc := List.length_pos_iff.mpr (escape_ne_nil c)
    rw [List.flatMap_cons, List.length_append, List.length_cons]
    omega

@[simp] theorem toList_quote (s : String) :
    (quote s).toList = '"' :: (s.toList.flatMap escape ++ ['"']) := by
  rw [quote, String.toList_ofList, List.cons_append]

theorem length_lt_quote (s : String) : s.toList.length < (quote s).toList.length := by
  have hescaped := length_le_flatMap_escape s.toList
  rw [toList_quote, List.length_cons, List.length_append]
  omega

theorem readString_flatMap_escape {s : String} {size : Nat} (h : s.toList.length < size)
    (rest : List Char) :
    readString size (s.toList.flatMap escape ++ '"' :: rest) = .ok (s, rest) := by
  refine Outcome.bind_eq_ok.mpr ⟨_, readChars_flatMap_escape h rest, ?_⟩
  dsimp only
  rw [String.ofList_toList]
  rfl

/-! ## Lists between brackets -/

def Blank (cs : List Char) : Prop := ∀ c ∈ cs, isBlank c = true

theorem skipBlanks_blank {gap : List Char} (h : Blank gap) (cs : List Char) :
    skipBlanks (gap ++ cs) = skipBlanks cs :=
  List.dropWhile_append_of_pos h

theorem skipBlanks_cons {c : Char} (h : isBlank c = false) (cs : List Char) :
    skipBlanks (c :: cs) = c :: cs := by
  rw [skipBlanks, List.dropWhile_cons, h]
  rfl

/-- What stands before an entry of a list: a comma, unless it is the first. -/
def comma : (first : Bool) → List Char
  | true => []
  | false => [',']

/-- The texts of entries up to the closing bracket, with blanks after commas and at both ends. -/
inductive Listed {α : Type} (closing : Char) (Spells : List Char → α → Prop) :
    (first : Bool) → List Char → List α → Prop where
  | closed {first : Bool} {gap : List Char} (blank : Blank gap) :
      Listed closing Spells first (gap ++ [closing]) []
  | entry {first : Bool} {gap text rest : List Char} {x : α} {xs : List α} (blank : Blank gap)
      (spelled : Spells text x) (others : Listed closing Spells false rest xs) :
      Listed closing Spells first (comma first ++ gap ++ text ++ rest) (x :: xs)

/-- The reader takes the value from the front of every text that goes on from this one, if `size`
bounds its length. -/
def Takes {α : Type} (size : Nat) (read : Reader α) (text : List Char) (x : α) : Prop :=
  text.length < size → ∀ rest, read (text ++ rest) = .ok (x, rest)

theorem nextItem_closed {first : Bool} {gap : List Char} (h : Blank gap) (rest : List Char) :
    nextItem first (gap ++ ']' :: rest) = .ok (.closed rest) := by
  rw [nextItem, skipBlanks_blank h]
  rfl

theorem nextMember_closed {first : Bool} {gap : List Char} (h : Blank gap) (rest : List Char) :
    nextMember first (gap ++ '\x7d' :: rest) = .ok (.closed rest) := by
  rw [nextMember, skipBlanks_blank h]
  rfl

/-- The text begins as a value does, not as a blank or the end of an array. -/
def StartsValue (text : List Char) : Prop :=
  ∃ c cs, text = c :: cs ∧ isBlank c = false ∧ c ≠ ']'

theorem nextItem_more (first : Bool) {gap text : List Char} (h : Blank gap)
    (hstart : StartsValue text) (rest : List Char) :
    nextItem first (comma first ++ gap ++ text ++ rest) = .ok (.more (text ++ rest)) := by
  obtain ⟨c, cs, rfl, hblank, hc⟩ := hstart
  have hskip : skipBlanks (gap ++ (c :: cs ++ rest)) = c :: (cs ++ rest) := by
    rw [skipBlanks_blank h]
    exact skipBlanks_cons hblank _
  rw [List.append_assoc, List.append_assoc, nextItem]
  cases first with
  | true =>
    rw [comma, List.nil_append, hskip]
    dsimp only
    rw [if_neg hc]
    rfl
  | false =>
    rw [comma, List.singleton_append, skipBlanks_cons rfl]
    dsimp only
    rw [if_neg (by decide), if_neg (by decide), if_pos rfl, hskip]
    dsimp only
    rw [if_neg hc]
    rfl

theorem nextMember_more (first : Bool) {gap : List Char} (h : Blank gap) (rest : List Char) :
    nextMember first (comma first ++ gap ++ '"' :: rest) = .ok (.more rest) := by
  have hskip : skipBlanks (gap ++ '"' :: rest) = '"' :: rest := by
    rw [skipBlanks_blank h]
    exact skipBlanks_cons rfl _
  rw [List.append_assoc, nextMember]
  cases first with
  | true =>
    rw [comma, List.nil_append, hskip]
    rfl
  | false =>
    rw [comma, List.singleton_append, skipBlanks_cons rfl]
    dsimp only
    rw [if_neg (by decide), if_neg (by decide), if_pos rfl, hskip]
    rfl

section
variable {α : Type} {size : Nat} {readItem : Reader α}

theorem readItems_listed {first : Bool} {text : List Char} {items : List α}
    (h : Listed ']' (fun text item => StartsValue text ∧ Takes size readItem text item)
      first text items) {steps : Nat} (hsteps : text.length ≤ steps) (hsize : text.length < size)
    (rest : List Char) : readItems readItem steps first (text ++ rest) = .ok (items, rest) := by
  induction h generalizing steps with
  | closed blank =>
    rw [List.length_append, List.length_singleton] at hsteps
    obtain ⟨steps, rfl⟩ := Nat.exists_eq_succ_of_ne_zero (by omega : steps ≠ 0)
    rw [readItems, List.append_assoc, List.singleton_append, nextItem_closed blank]
    rfl
  | @entry first gap text more item items blank spelled others ih =>
    obtain ⟨hstart, htakes⟩ := spelled
    obtain ⟨c, cs, hcons, -⟩ := id hstart
    have htext : 0 < text.length := by
      rw [hcons]
      exact Nat.succ_pos _
    simp only [List.length_append] at hsteps hsize
    obtain ⟨steps, rfl⟩ := Nat.exists_eq_succ_of_ne_zero (by omega : steps ≠ 0)
    rw [readItems, List.append_assoc (comma first ++ gap ++ text),
      nextItem_more first blank hstart]
    refine Outcome.bind_eq_ok.mpr ⟨_, rfl, ?_⟩
    refine Outcome.bind_eq_ok.mpr ⟨_, htakes (by omega) _, ?_⟩
    exact Outcome.bind_eq_ok.mpr ⟨_, ih (by omega) (by omega), rfl⟩

/-- A member: its quoted name, a colon and, after blanks, its value. -/
def SpellsMember (size : Nat) (readItem : Reader α) (text : List Char) (member : String × α) :
    Prop :=
  ∃ value, text = (quote member.1).toList ++ ':' :: value ∧ Takes size readItem value member.2

theorem member_opened (front value more rest : List Char) (name : String) :
    front ++ ((quote name).toList ++ ':' :: value) ++ more ++ rest =
      front ++ '"' :: (name.toList.flatMap escape ++ '"' :: ':' :: (value ++ (more ++ rest))) := by
  rw [toList_quote]
  simp only [List.append_assoc, List.cons_append, List.nil_append]

theorem readMembers_listed {first : Bool} {text : List Char} {members : List (String × α)}
    (h : Listed '\x7d' (SpellsMember size readItem) first text members) {steps : Nat}
    (hsteps : text.length ≤ steps) (hsize : text.length < size) (rest : List Char) :
    readMembers size readItem steps first (text ++ rest) = .ok (members, rest) := by
  induction h generalizing steps with
  | closed blank =>
    rw [List.length_append, List.length_singleton] at hsteps
    obtain ⟨steps, rfl⟩ := Nat.exists_eq_succ_of_ne_zero (by omega : steps ≠ 0)
    rw [readMembers, List.append_assoc, List.singleton_append, nextMember_closed blank]
    rfl
  | @entry first gap text more member members blank spelled others ih =>
    obtain ⟨value, rfl, htakes⟩ := spelled
    have hname := length_lt_quote member.1
    simp only [List.length_append, List.length_cons] at hsteps hsize
    obtain ⟨steps, rfl⟩ := Nat.exists_eq_succ_of_ne_zero (by omega : steps ≠ 0)
    rw [member_opened, readMembers, nextMember_more first blank]
    refine Outcome.bind_eq_ok.mpr ⟨_, rfl, ?_⟩
    refine Outcome.bind_eq_ok.mpr ⟨_, readString_flatMap_escape (by omega) _, ?_⟩
    refine Outcome.bind_eq_ok.mpr ⟨value ++ (more ++ rest), rfl, ?_⟩
    refine Outcome.bind_eq_ok.mpr ⟨_, htakes (by omega) _, ?_⟩
    exact Outcome.bind_eq_ok.mpr ⟨_, ih (by omega) (by omega), rfl⟩

end

section
variable {α : Type} {closing : Char} {Spells : List Char → α → Prop}

theorem blank_nil : Blank [] := fun _ h => nomatch h

theorem listed_flatMap {text : α → String} {xs : List α}
    (h : ∀ x ∈ xs, Spells (text x).toList x) {gap last : List Char} (hgap : Blank gap)
    (hlast : Blank last) :
    Listed closing Spells false
      (xs.flatMap (fun x => ',' :: gap ++ (text x).toList) ++ last ++ [closing]) xs := by
  induction xs with
  | nil => exact .closed hlast
  | cons x xs ih =>
    obtain ⟨hx, hxs⟩ := List.forall_mem_cons.mp h
    have hlisted : Listed closing Spells false _ (x :: xs) := .entry hgap hx (ih hxs)
    simpa only [comma, List.flatMap_cons, List.append_assoc, List.cons_append, List.nil_append]
      using hlisted

theorem toList_intercalate_map (sep : String) (text : α → String) (x : α) (xs : List α) :
    (sep.intercalate ((x :: xs).map text)).toList =
      (text x).toList ++ xs.flatMap (fun x => sep.toList ++ (text x).toList) := by
  induction xs generalizing x with
  | nil => simp
  | cons y xs ih =>
    rw [List.map_cons, List.map_cons, String.intercalate_cons_cons, ← List.map_cons,
      String.toList_append, String.toList_append, ih, List.flatMap_cons, List.append_assoc,
      List.append_assoc]

/-- Entries are listed in the same way on one line and on lines of their own. -/
theorem listed_intercalate {text : α → String} {x : α} {xs : List α}
    (h : ∀ y ∈ x :: xs, Spells (text y).toList y) (gap last : String) (hgap : Blank gap.toList)
    (hlast : Blank last.toList) :
    Listed closing Spells true (gap.toList ++
      (("," ++ gap).intercalate ((x :: xs).map text)).toList ++ last.toList ++ [closing])
      (x :: xs) := by
  obtain ⟨hx, hxs⟩ := List.forall_mem_cons.mp h
  have hlisted : Listed closing Spells true _ (x :: xs) :=
    .entry hgap hx (listed_flatMap hxs hgap hlast)
  rw [toList_intercalate_map]
  simpa [comma] using hlisted

end

/-! ## Both texts of a value -/

/-- The text of a value in a style, where indented text stands `depth` levels inside. -/
def textAt (style : TextStyle) (depth : Nat) (j : Json) : String :=
  match style with
  | .compact => j.compact
  | .indented => j.indented depth

def memberText (style : TextStyle) (depth : Nat) (member : String × Json) : String :=
  match style with
  | .compact => quote member.1 ++ ":" ++ member.2.compact
  | .indented => quote member.1 ++ ": " ++ member.2.indented depth

/-- Parts between brackets, `depth` levels inside. -/
def enclosed (style : TextStyle) (opening closing : String) (depth : Nat) (parts : List String) :
    String :=
  match style with
  | .compact => opening ++ ",".intercalate parts ++ closing
  | .indented => block opening closing depth parts

@[simp] theorem textAt_null (style : TextStyle) (depth : Nat) :
    null.textAt style depth = "null" := by
  cases style <;> simp only [textAt, compact, indented]

@[simp] theorem textAt_bool (style : TextStyle) (depth : Nat) (b : Bool) :
    (bool b).textAt style depth = if b then "true" else "false" := by
  cases style <;> simp only [textAt, compact, indented]

@[simp] theorem textAt_string (style : TextStyle) (depth : Nat) (s : String) :
    (string s).textAt style depth = quote s := by
  cases style <;> simp only [textAt, compact, indented]

theorem compactItems_eq_map (items : List Json) : compactItems items = items.map compact := by
  induction items with
  | nil => rfl
  | cons item rest ih => rw [compactItems, ih, List.map_cons]

theorem indentedItems_eq_map (depth : Nat) (items : List Json) :
    indentedItems depth items = items.map (indented depth) := by
  induction items with
  | nil => rfl
  | cons item rest ih => rw [indentedItems, ih, List.map_cons]

theorem compactMembers_eq_map (depth : Nat) (members : List (String × Json)) :
    compactMembers members = members.map (memberText .compact depth) := by
  induction members with
  | nil => rfl
  | cons member rest ih => rw [compactMembers, ih, List.map_cons, memberText]

theorem indentedMembers_eq_map (depth : Nat) (members : List (String × Json)) :
    indentedMembers depth members = members.map (memberText .indented depth) := by
  induction members with
  | nil => rfl
  | cons member rest ih => rw [indentedMembers, ih, List.map_cons, memberText]

@[simp] theorem textAt_array (style : TextStyle) (depth : Nat) (items : List Json) :
    (array items).textAt style depth =
      enclosed style "[" "]" depth (items.map (textAt style (depth + 1))) := by
  cases style with
  | compact =>
    rw [textAt, compact, compactItems_eq_map]
    rfl
  | indented =>
    rw [textAt, indented, indentedItems_eq_map]
    rfl

@[simp] theorem textAt_object (style : TextStyle) (depth : Nat) (members : List (String × Json)) :
    (object members).textAt style depth =
      enclosed style "\x7b" "\x7d" depth (members.map (memberText style (depth + 1))) := by
  cases style with
  | compact =>
    rw [textAt, compact, compactMembers_eq_map (depth + 1)]
    rfl
  | indented =>
    rw [textAt, indented, indentedMembers_eq_map]
    rfl

theorem blank_newLine (depth : Nat) : Blank (newLine depth).toList := by
  rw [newLine, String.toList_ofList]
  intro c hc
  rcases List.mem_cons.mp hc with rfl | hc
  · rfl
  · rw [List.eq_of_mem_replicate hc]
    rfl

theorem exists_listed_enclosed {α : Type} (Spells : List Char → α → Prop) (style : TextStyle)
    (opening : String) (closing : Char) (depth : Nat) (text : α → String) {xs : List α}
    (h : ∀ x ∈ xs, Spells (text x).toList x) :
    ∃ inside, Listed closing Spells true inside xs ∧
      (enclosed style opening (.singleton closing) depth (xs.map text)).toList =
        opening.toList ++ inside := by
  cases xs with
  | nil => exact ⟨[closing], .closed blank_nil, by cases style <;> simp [enclosed, block]⟩
  | cons x xs =>
    cases style with
    | compact =>
      refine ⟨_, listed_intercalate h "" "" blank_nil blank_nil, ?_⟩
      simp [enclosed]
    | indented =>
      refine ⟨_, listed_intercalate h _ _ (blank_newLine (depth + 1)) (blank_newLine depth), ?_⟩
      simp [enclosed, block]

theorem startsValue_textAt {j : Json} (h : Numberless j) (style : TextStyle) (depth : Nat) :
    StartsValue (j.textAt style depth).toList := by
  have hmember : ∀ {α : Type} (xs : List α), ∀ x ∈ xs, True := fun _ _ _ => trivial
  cases h with
  | null =>
    rw [textAt_null]
    exact ⟨'n', ['u', 'l', 'l'], rfl, rfl, by decide⟩
  | bool b =>
    rw [textAt_bool]
    cases b with
    | false => exact ⟨'f', ['a', 'l', 's', 'e'], rfl, rfl, by decide⟩
    | true => exact ⟨'t', ['r', 'u', 'e'], rfl, rfl, by decide⟩
  | string s =>
    rw [textAt_string]
    exact ⟨'"', _, toList_quote s, rfl, by decide⟩
  | @array items _ =>
    obtain ⟨inside, -, heq⟩ := exists_listed_enclosed (fun _ _ => True) style "[" ']' depth
      (textAt style (depth + 1)) (hmember items)
    exact ⟨'[', inside, by rw [textAt_array]; exact heq, rfl, by decide⟩
  | @object members _ =>
    obtain ⟨inside, -, heq⟩ := exists_listed_enclosed (fun _ _ => True) style "\x7b" '\x7d'
      depth (memberText style (depth + 1)) (hmember members)
    exact ⟨'\x7b', inside, by rw [textAt_object]; exact heq, rfl, by decide⟩

/-! ## Reading both texts -/

theorem readValue_blank {gap : List Char} (h : Blank gap) (size n : Nat) (cs : List Char) :
    readValue size n (gap ++ cs) = readValue size n cs := by
  cases n <;> rw [readValue, readValueWith, readValueWith, skipBlanks_blank h]

theorem takes_string (size n : Nat) (s : String) :
    Takes size (readValue size n) (quote s).toList (.string s) := by
  intro hsize rest
  have hread := readString_flatMap_escape (Nat.lt_trans (length_lt_quote s) hsize) rest
  rw [toList_quote, List.cons_append, List.append_assoc, List.singleton_append]
  cases n <;> exact Outcome.bind_eq_ok.mpr ⟨_, hread, rfl⟩

theorem takes_array {size n : Nat} {inside : List Char} {items : List Json}
    (h : Listed ']' (fun text item => StartsValue text ∧ Takes size (readValue size n) text item)
      true inside items) :
    Takes size (readValue size (n + 1)) ('[' :: inside) (.array items) := by
  intro hsize rest
  have hlength : inside.length < size := Nat.lt_of_succ_lt hsize
  have hread := readItems_listed h (Nat.le_of_lt hlength) hlength rest
  exact Outcome.bind_eq_ok.mpr ⟨_, hread, rfl⟩

theorem takes_object {size n : Nat} {inside : List Char} {members : List (String × Json)}
    (h : Listed '\x7d' (SpellsMember size (readValue size n)) true inside members) :
    Takes size (readValue size (n + 1)) ('\x7b' :: inside) (.object members) := by
  intro hsize rest
  have hlength : inside.length < size := Nat.lt_of_succ_lt hsize
  have hread := readMembers_listed h (Nat.le_of_lt hlength) hlength rest
  exact Outcome.bind_eq_ok.mpr ⟨_, hread, rfl⟩

theorem spellsMember_memberText {size n depth : Nat} {style : TextStyle} {member : String × Json}
    (h : Takes size (readValue size n) (member.2.textAt style depth).toList member.2) :
    SpellsMember size (readValue size n) (memberText style depth member).toList member := by
  cases style with
  | compact => exact ⟨_, by simp [memberText, textAt], h⟩
  | indented =>
    refine ⟨' ' :: (member.2.indented depth).toList, by simp [memberText], ?_⟩
    intro hsize rest
    have hblank : Blank [' '] := by
      intro c hc
      rw [List.mem_singleton.mp hc]
      rfl
    change readValue size n ([' '] ++ ((member.2.indented depth).toList ++ rest)) = _
    rw [readValue_blank hblank]
    exact h (Nat.lt_of_succ_lt hsize) rest

theorem takes_textAt {j : Json} (hnumberless : Numberless j) {size n : Nat}
    (hnesting : j.nesting ≤ n) (style : TextStyle) (depth : Nat) :
    Takes size (readValue size n) (j.textAt style depth).toList j := by
  induction hnumberless generalizing n depth with
  | null =>
    rw [textAt_null]
    intro _ rest
    cases n <;> rfl
  | bool b =>
    rw [textAt_bool]
    intro _ rest
    cases n <;> cases b <;> rfl
  | string s =>
    rw [textAt_string]
    exact takes_string size n s
  | @array items each ih =>
    obtain ⟨n, rfl⟩ := Nat.exists_eq_succ_of_ne_zero (Nat.ne_zero_of_lt hnesting)
    have hitems := nestingOfItems_le_iff.mp (Nat.le_of_succ_le_succ hnesting)
    obtain ⟨inside, hlisted, heq⟩ := exists_listed_enclosed
      (fun text item => StartsValue text ∧ Takes size (readValue size n) text item) style "[" ']'
      depth (textAt style (depth + 1)) fun item hitem =>
        ⟨startsValue_textAt (each item hitem) style (depth + 1),
          ih item hitem (hitems item hitem) (depth + 1)⟩
    rw [textAt_array]
    exact heq ▸ takes_array hlisted
  | @object members each ih =>
    obtain ⟨n, rfl⟩ := Nat.exists_eq_succ_of_ne_zero (Nat.ne_zero_of_lt hnesting)
    have hmembers := nestingOfMembers_le_iff.mp (Nat.le_of_succ_le_succ hnesting)
    obtain ⟨inside, hlisted, heq⟩ := exists_listed_enclosed
      (SpellsMember size (readValue size n)) style "\x7b" '\x7d' depth
      (memberText style (depth + 1)) fun member hmember => spellsMember_memberText
        (ih member hmember (hmembers member hmember) (depth + 1))
    rw [textAt_object]
    exact heq ▸ takes_object hlisted

/-- Both texts of a value without numbers are read back, within the limit on nesting. -/
theorem parse_write {j : Json} (hnumberless : Numberless j) (hnesting : j.nesting ≤ maxNesting)
    (style : TextStyle) : parse (j.write style) = .ok j := by
  have hwrite : j.write style = j.textAt style 0 := by
    cases style <;> rfl
  have htakes := takes_textAt hnumberless hnesting style 0
    (Nat.lt_succ_self (j.textAt style 0).toList.length) []
  rw [List.append_nil] at htakes
  rw [hwrite, parse, readText]
  exact Outcome.bind_eq_ok.mpr ⟨_, htakes, rfl⟩

end WireQuery.Json
