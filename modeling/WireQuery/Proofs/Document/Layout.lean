import WireQuery.Proofs.Document.Inline
import WireQuery.Proofs.Document.RoundTrip

/-!
# The layout of a document

Both texts of a compiled document have the same words, and the indented one differs in the gaps
between them only. Its lines follow the selections: each has a line of its own, two blanks further
in than the line that opens the selections around it, and a brace is closed on a line of its own
that stands as far in as the line that opened it.
-/

namespace WireQuery
set_option autoImplicit false

/-! ## Gaps -/

def isGap (c : Char) : Bool := c == ' ' || c == '\n'

/-- The text with one blank for each run of blanks and line breaks. `inRun` tells that the text
goes on with a run whose blank has been written. -/
def squeeze : (inRun : Bool) → List Char → List Char
  | _, [] => []
  | inRun, c :: cs =>
    if isGap c then (if inRun then squeeze true cs else ' ' :: squeeze true cs)
    else c :: squeeze false cs

/-- Every longest run of blanks and line breaks is replaced by one blank. -/
def squeezed (text : String) : String := String.ofList (squeeze false text.toList)

theorem squeeze_cons {c : Char} (h : isGap c = false) (inRun : Bool) (cs : List Char) :
    squeeze inRun (c :: cs) = c :: squeeze false cs := by
  rw [squeeze, h]
  rfl

@[simp] theorem squeeze_replicate (n : Nat) (cs : List Char) :
    squeeze true (List.replicate n ' ' ++ cs) = squeeze true cs := by
  induction n with
  | zero => rfl
  | succ n ih => exact ih

theorem squeeze_blank (cs : List Char) :
    squeeze false (" ".toList ++ cs) = ' ' :: squeeze true cs :=
  rfl

theorem squeeze_newLine (cs : List Char) :
    squeeze false ("\n".toList ++ cs) = ' ' :: squeeze true cs :=
  rfl

theorem squeeze_open (cs : List Char) :
    squeeze false (" \x7b\n".toList ++ cs) = " \x7b ".toList ++ squeeze true cs :=
  rfl

theorem squeeze_close (inRun : Bool) (cs : List Char) :
    squeeze inRun ("\x7d".toList ++ cs) = "\x7d".toList ++ squeeze false cs :=
  squeeze_cons rfl inRun cs

theorem not_isGap_of_isWordChar {c : Char} (h : isWordChar c = true) : isGap c = false := by
  have hne : c ≠ ' ' ∧ c ≠ '\n' := by
    constructor
    all_goals rintro rfl; revert h; decide
  simp [isGap, hne]

theorem Inline.squeeze_append {text : String} (h : Inline text) (inRun : Bool) (rest : List Char) :
    squeeze inRun (text.toList ++ rest) = text.toList ++ squeeze false rest := by
  induction h generalizing inRun rest with
  | @word text filled each =>
    have hword : ∀ (cs : List Char), (∀ c ∈ cs, isWordChar c = true) →
        squeeze false (cs ++ rest) = cs ++ squeeze false rest := by
      intro cs hcs
      induction cs with
      | nil => rfl
      | cons c cs ih =>
        obtain ⟨hc, hcs⟩ := List.forall_mem_cons.mp hcs
        rw [List.cons_append, squeeze_cons (not_isGap_of_isWordChar hc), ih hcs, List.cons_append]
    obtain ⟨c, cs, hcons⟩ := List.exists_cons_of_ne_nil filled
    rw [hcons, List.all_eq_true] at each
    obtain ⟨hc, hcs⟩ := List.forall_mem_cons.mp each
    rw [hcons, List.cons_append, squeeze_cons (not_isGap_of_isWordChar hc), hword cs hcs,
      List.cons_append]
  | append _ _ ihleft ihright =>
    rw [String.toList_append, List.append_assoc, ihleft, ihright, List.append_assoc]
  | spaced _ _ ihleft ihright =>
    simp only [String.toList_append, List.append_assoc]
    rw [ihleft, squeeze_blank, ihright]
    rfl

namespace Selection

@[simp] theorem squeeze_indentation (depth : Nat) (cs : List Char) :
    squeeze true ((indentation depth).toList ++ cs) = squeeze true cs := by
  rw [indentation, String.toList_ofList, squeeze_replicate]

mutual

theorem squeeze_indented : ∀ (s : Selection), s.WellFormed →
    ∀ (depth : Nat) (inRun : Bool) (rest : List Char),
      squeeze inRun ((s.indented depth).toList ++ rest) = s.compact.toList ++ squeeze false rest
  | leaf field, h, depth, inRun, rest => by
    rw [indented, compact]
    exact (Field.inline_text h).squeeze_append inRun rest
  | nested field selections, ⟨hfield, hfilled, hall⟩, depth, inRun, rest => by
    rw [indented, compact]
    simp only [String.toList_append, List.append_assoc]
    rw [(Field.inline_text hfield).squeeze_append, squeeze_open,
      squeeze_indentedAll selections hfilled hall, squeeze_indentation, squeeze_close]
    rfl

theorem squeeze_indentedAll : ∀ (selections : List Selection), selections ≠ [] →
    AllWellFormed selections → ∀ (depth : Nat) (rest : List Char),
      squeeze true ((indentedAll depth selections).toList ++ rest) =
        (" ".intercalate (compactAll selections)).toList ++ ' ' :: squeeze true rest
  | [], hfilled, _, _, _ => absurd rfl hfilled
  | [s], _, ⟨hs, _⟩, depth, rest => by
    rw [indentedAll, indentedAll, line, compactAll, compactAll, String.intercalate_singleton]
    simp only [String.toList_append, List.append_assoc]
    rw [squeeze_indentation, squeeze_indented s hs, squeeze_newLine]
    rfl
  | s :: s' :: selections, _, ⟨hs, hall⟩, depth, rest => by
    rw [indentedAll, line, compactAll, compactAll, String.intercalate_cons_cons, ← compactAll]
    simp only [String.toList_append, List.append_assoc]
    rw [squeeze_indentation, squeeze_indented s hs, squeeze_newLine,
      squeeze_indentedAll (s' :: selections) (List.cons_ne_nil _ _) hall]
    rfl

end

end Selection

theorem Document.squeezed_write {document : Document} (h : document.WellFormed) :
    squeezed (document.write .indented) = document.write .compact := by
  rw [squeezed, ← String.toList_inj, String.toList_ofList, write, write]
  simp only [String.toList_append, List.append_assoc]
  rw [(inline_header h).squeeze_append, squeeze_open,
    Selection.squeeze_indentedAll _ h.populated h.selections]
  rfl

theorem newLine_not_mem_squeeze (inRun : Bool) (cs : List Char) : '\n' ∉ squeeze inRun cs := by
  induction cs generalizing inRun with
  | nil => exact List.not_mem_nil
  | cons c cs ih =>
    rw [squeeze]
    split
    · split
      · exact ih true
      · exact List.not_mem_cons_of_ne_of_not_mem (by decide) (ih true)
    · next hc =>
      refine List.not_mem_cons_of_ne_of_not_mem ?_ (ih false)
      rintro rfl
      exact hc rfl

/-- The compact text is one line. -/
theorem Document.newLine_not_mem_text {document : Document} (h : document.WellFormed) :
    '\n' ∉ document.text.toList := by
  rw [text, ← squeezed_write h, squeezed, String.toList_ofList]
  exact newLine_not_mem_squeeze false _

/-! ## Lines -/

/-- The lines of a text, without the breaks between them. -/
def lines (text : String) : List String := (text.toList.splitOn '\n').map String.ofList

/-- The number of blanks that a line begins with. -/
def lineIndent (line : String) : Nat := (line.toList.takeWhile (· == ' ')).length

def lineContent (line : String) : List Char := line.toList.dropWhile (· == ' ')

/-- A closing brace and nothing else. -/
def isClosing (line : String) : Bool := lineContent line == ['\x7d']

/-- Goes over a line. `opened` has, for each brace that is open, how far in the line of the brace
stands, innermost first. A closing brace stands alone and as far in as the line that it closes; any
other line stands two blanks further in for each open brace. -/
def braceStep (opened : List Nat) (line : String) : Option (List Nat) :=
  if isClosing line then
    match opened with
    | [] => none
    | indent :: outer => if lineIndent line = indent then some outer else none
  else if '\x7d' ∈ lineContent line ∨ lineIndent line ≠ 2 * opened.length then none
  else some (List.replicate ((lineContent line).count '\x7b') (lineIndent line) ++ opened)

/-- The lines with their breaks. -/
def unlines (texts : List String) : List Char := texts.flatMap fun text => text.toList ++ ['\n']

theorem splitOn_unlines {texts : List String} {last : String}
    (h : ∀ text ∈ texts, '\n' ∉ text.toList) (hlast : '\n' ∉ last.toList) :
    (unlines texts ++ last.toList).splitOn '\n' = (texts ++ [last]).map String.toList := by
  have hbreak : ∀ (cs : List String), unlines cs ++ last.toList =
      ['\n'].intercalate ((cs ++ [last]).map String.toList) := by
    intro cs
    induction cs with
    | nil => simp [unlines]
    | cons text cs ih =>
      obtain ⟨next, others, hcons⟩ : ∃ next others, cs ++ [last] = next :: others :=
        List.exists_cons_of_ne_nil (by simp)
      rw [List.cons_append, List.map_cons, hcons, List.map_cons, List.intercalate_cons_cons,
        ← List.map_cons, ← hcons, ← ih]
      simp [unlines]
  rw [hbreak]
  apply List.splitOn_intercalate
  · intro cs hcs
    obtain ⟨text, htext, rfl⟩ := List.mem_map.mp hcs
    rcases List.mem_append.mp htext with htext | htext
    · exact h text htext
    · rw [List.mem_singleton.mp htext]
      exact hlast
  · simp

theorem Inline.not_mem {text : String} (h : Inline text) {c : Char} (hblank : c ≠ ' ')
    (hword : isWordChar c = false) : c ∉ text.toList := by
  intro hc
  rcases h.char c hc with heq | hc
  · exact hblank heq
  · rw [hword] at hc
    cases hc

namespace Selection

theorem indent_and_content (depth : Nat) (content : String) {c : Char} {cs : List Char}
    (hcontent : content.toList = c :: cs) (hc : c ≠ ' ') :
    lineIndent (indentation depth ++ content) = 2 * depth ∧
      lineContent (indentation depth ++ content) = content.toList := by
  have hblank : ∀ b ∈ List.replicate (2 * depth) ' ', (b == ' ') = true := by
    intro b hb
    rw [List.eq_of_mem_replicate hb]
    rfl
  have hfirst : (c == ' ') = false := beq_eq_false_iff_ne.mpr hc
  rw [lineIndent, lineContent, String.toList_append, indentation, String.toList_ofList, hcontent,
    List.takeWhile_append_of_pos hblank, List.dropWhile_append_of_pos hblank,
    List.takeWhile_cons, List.dropWhile_cons, hfirst]
  simp

theorem not_newLine_mem_indentation (depth : Nat) {content : String}
    (h : '\n' ∉ content.toList) : '\n' ∉ (indentation depth ++ content).toList := by
  rw [String.toList_append, indentation, String.toList_ofList]
  intro hc
  rcases List.mem_append.mp hc with hc | hc
  · cases List.eq_of_mem_replicate hc
  · exact h hc

/-- What a selection begins with on its line. -/
def opening : Selection → String
  | leaf field => field.text
  | nested field _ => field.text ++ " \x7b"

/-- The lines of selections that stand `depth` levels inside, and those of them that are no closing
braces. -/
inductive Block : (depth : Nat) → List String → List String → Prop where
  | nil {depth : Nat} : Block depth [] []
  | leaf {depth : Nat} {text : String} (inline : Inline text) :
      Block depth [indentation depth ++ text] [indentation depth ++ text]
  | nested {depth : Nat} {text : String} {inside openings : List String} (inline : Inline text)
      (inner : Block (depth + 1) inside openings) :
      Block depth
        ((indentation depth ++ (text ++ " \x7b")) :: (inside ++ [indentation depth ++ "\x7d"]))
        ((indentation depth ++ (text ++ " \x7b")) :: openings)
  | append {depth : Nat} {before after openings openings' : List String}
      (left : Block depth before openings) (right : Block depth after openings') :
      Block depth (before ++ after) (openings ++ openings')

theorem indent_and_content_inline {text : String} (h : Inline text) (depth : Nat) (last : String) :
    lineIndent (indentation depth ++ (text ++ last)) = 2 * depth ∧
      lineContent (indentation depth ++ (text ++ last)) = (text ++ last).toList := by
  obtain ⟨c, cs, hcons, hc⟩ := h.exists_cons
  have hstart : (text ++ last).toList = c :: (cs ++ last.toList) := by
    rw [String.toList_append, hcons, List.cons_append]
  refine indent_and_content depth _ hstart ?_
  rintro rfl
  revert hc
  decide

section
variable {text last : String} (h : Inline text) (hlast : '\x7d' ∉ last.toList)
include h hlast

theorem not_mem_append : '\x7d' ∉ (text ++ last).toList := by
  rw [String.toList_append, List.mem_append, not_or]
  exact ⟨h.not_mem (by decide) (by decide), hlast⟩

theorem isClosing_inline (depth : Nat) :
    isClosing (indentation depth ++ (text ++ last)) = false := by
  rw [isClosing, (indent_and_content_inline h depth last).2, beq_eq_false_iff_ne]
  intro heq
  have hclose := not_mem_append h hlast
  rw [heq] at hclose
  exact hclose List.mem_cons_self

/-- A line that begins with words opens the braces at its end. -/
theorem braceStep_inline {opened : List Nat} {depth : Nat} (hdepth : opened.length = depth) :
    braceStep opened (indentation depth ++ (text ++ last)) =
      some (List.replicate (last.toList.count '\x7b') (2 * depth) ++ opened) := by
  obtain ⟨hindent, hcontent⟩ := indent_and_content_inline h depth last
  have hopen : (text ++ last).toList.count '\x7b' = last.toList.count '\x7b' := by
    rw [String.toList_append, List.count_append,
      List.count_eq_zero_of_not_mem (h.not_mem (by decide) (by decide)), Nat.zero_add]
  have hkept : ¬('\x7d' ∈ (text ++ last).toList ∨ 2 * depth ≠ 2 * opened.length) := by
    rw [hdepth, not_or, not_not]
    exact ⟨not_mem_append h hlast, rfl⟩
  unfold braceStep
  rw [isClosing_inline h hlast, hindent, hcontent, hopen, if_neg (by decide), if_neg hkept]

end

theorem braceStep_closing (depth : Nat) (outer : List Nat) :
    isClosing (indentation depth ++ "\x7d") = true ∧
      braceStep (2 * depth :: outer) (indentation depth ++ "\x7d") = some outer := by
  have hcons : "\x7d".toList = '\x7d' :: [] := rfl
  obtain ⟨hindent, hcontent⟩ := indent_and_content depth "\x7d" hcons (by decide)
  have hclosing : isClosing (indentation depth ++ "\x7d") = true := by
    rw [isClosing, hcontent]
    rfl
  refine ⟨hclosing, ?_⟩
  unfold braceStep
  rw [hclosing, hindent, if_pos rfl]
  exact if_pos rfl

namespace Block

variable {depth : Nat} {texts openings : List String}

theorem unbroken (h : Block depth texts openings) : ∀ text ∈ texts, '\n' ∉ text.toList := by
  induction h with
  | nil => exact nofun
  | @leaf depth text inline =>
    have htext := not_newLine_mem_indentation depth (inline.not_mem (by decide) (by decide))
    exact List.forall_mem_singleton.mpr htext
  | @nested depth text _ _ inline inner ih =>
    have hopen : '\n' ∉ (text ++ " \x7b").toList := by
      rw [String.toList_append, List.mem_append, not_or]
      exact ⟨inline.not_mem (by decide) (by decide), by decide⟩
    refine List.forall_mem_cons.mpr ⟨not_newLine_mem_indentation depth hopen, ?_⟩
    refine List.forall_mem_append.mpr ⟨ih, List.forall_mem_singleton.mpr ?_⟩
    exact not_newLine_mem_indentation depth (by decide)
  | append _ _ ihleft ihright => exact List.forall_mem_append.mpr ⟨ihleft, ihright⟩

/-- After the lines the same braces are open as before. -/
theorem scan (h : Block depth texts openings) {opened : List Nat}
    (hdepth : opened.length = depth) : texts.foldlM braceStep opened = some opened := by
  induction h generalizing opened with
  | nil => rfl
  | @leaf depth text inline =>
    have hnone : '\x7d' ∉ "".toList := by decide
    have hstep := braceStep_inline inline hnone hdepth
    rw [String.append_empty] at hstep
    rw [List.foldlM_cons, hstep]
    rfl
  | @nested depth text inside _ inline _ ih =>
    have hnone : '\x7d' ∉ " \x7b".toList := by decide
    have hstep := braceStep_inline inline hnone hdepth
    have hlength : (2 * depth :: opened).length = depth + 1 := by rw [List.length_cons, hdepth]
    rw [List.foldlM_cons, hstep]
    change (inside ++ _).foldlM braceStep (2 * depth :: opened) = _
    rw [List.foldlM_append, ih hlength]
    change [_].foldlM braceStep (2 * depth :: opened) = _
    rw [List.foldlM_cons, (braceStep_closing depth opened).2]
    rfl
  | append _ _ ihleft ihright =>
    rw [List.foldlM_append, ihleft hdepth]
    exact ihright hdepth

theorem filter (h : Block depth texts openings) :
    texts.filter (fun text => !isClosing text) = openings := by
  induction h with
  | nil => rfl
  | @leaf depth text inline =>
    have hnone : '\x7d' ∉ "".toList := by decide
    have hkept := isClosing_inline inline hnone depth
    rw [String.append_empty] at hkept
    rw [List.filter_cons, hkept]
    rfl
  | @nested depth text _ _ inline _ ih =>
    have hnone : '\x7d' ∉ " \x7b".toList := by decide
    have hkept := isClosing_inline inline hnone depth
    rw [List.filter_cons, hkept, List.filter_append, ih, List.filter_cons,
      (braceStep_closing depth []).1]
    simp
  | append _ _ ihleft ihright => rw [List.filter_append, ihleft, ihright]

end Block

mutual

/-- The selections in the order of their lines, each with the number of the selection sets around
it, if the first stands in `depth` of them. -/
def enclosed (depth : Nat) : Selection → List (Nat × Selection)
  | leaf field => [(depth, leaf field)]
  | nested field selections =>
    (depth, nested field selections) :: enclosedAll (depth + 1) selections

def enclosedAll (depth : Nat) : List Selection → List (Nat × Selection)
  | [] => []
  | s :: rest => s.enclosed depth ++ enclosedAll depth rest

end

/-- The line on which a selection stands inside so many selection sets. -/
def openingLine (entry : Nat × Selection) : String := indentation entry.1 ++ entry.2.opening

mutual

theorem exists_block : ∀ (s : Selection), s.WellFormed → ∀ depth : Nat,
    ∃ texts, Block depth texts ((s.enclosed depth).map openingLine) ∧
      (line depth (s.indented depth)).toList = unlines texts
  | leaf field, h, depth => by
    refine ⟨_, .leaf (Field.inline_text h), ?_⟩
    simp [line, indented, unlines, opening]
  | nested field selections, ⟨hfield, _, hall⟩, depth => by
    obtain ⟨inside, hblock, hinside⟩ := exists_blockAll selections hall (depth + 1)
    refine ⟨_, .nested (Field.inline_text hfield) hblock, ?_⟩
    simp [line, indented, unlines, hinside]

theorem exists_blockAll : ∀ (selections : List Selection), AllWellFormed selections →
    ∀ depth : Nat, ∃ texts, Block depth texts ((enclosedAll depth selections).map openingLine) ∧
      (indentedAll depth selections).toList = unlines texts
  | [], _, _ => ⟨[], .nil, rfl⟩
  | s :: rest, ⟨hs, hall⟩, depth => by
    obtain ⟨texts, hblock, htexts⟩ := exists_block s hs depth
    obtain ⟨others, hothers, hrest⟩ := exists_blockAll rest hall depth
    rw [enclosedAll, List.map_append]
    refine ⟨_, hblock.append hothers, ?_⟩
    rw [indentedAll, String.toList_append, htexts, hrest, unlines, unlines, unlines,
      List.flatMap_append]

end

end Selection

namespace Document

/-- The lines of the indented text, where the first one and the last one are those of the braces
around all selections. -/
theorem block_write {document : Document} (h : document.WellFormed) :
    Selection.Block 0 (lines (document.write .indented)) ((document.header ++ " \x7b") ::
      (Selection.enclosedAll 1 document.selections).map Selection.openingLine) := by
  obtain ⟨texts, hblock, htexts⟩ := Selection.exists_blockAll document.selections h.selections 1
  have hwhole := Selection.Block.nested (inline_header h) hblock
  have hindentation : Selection.indentation 0 = "" := rfl
  rw [hindentation, String.empty_append, String.empty_append] at hwhole
  have hwrite : (document.write .indented).toList =
      unlines ((document.header ++ " \x7b") :: texts) ++ "\x7d".toList := by
    rw [write]
    simp [unlines, htexts]
  have hlines : lines (document.write .indented) =
      (document.header ++ " \x7b") :: (texts ++ ["\x7d"]) := by
    have hunbroken := hwhole.unbroken
    rw [← List.cons_append] at hunbroken
    rw [lines, hwrite, splitOn_unlines (List.forall_mem_append.mp hunbroken).1 (by decide),
      List.map_map]
    simp
  rw [hlines]
  exact hwhole

end Document

namespace Query

variable {root : Group} {operationName : Option String} {table : ScalarTable} {query : Query}

/-- The indented text of a compiled document with its gaps closed is the compact text. Its lines
besides the closing braces are the first one and one for each selection, two blanks further in for
each selection set around it; each closing brace stands alone on its line and as far in as the line
that opened it; and nothing follows the last one. -/
theorem texts_differ_in_layout (compiled : root.compile operationName table = .ok query) :
    squeezed (query.document.write .indented) = query.document.write .compact ∧
      (lines (query.document.write .indented)).filter (fun text => !isClosing text) =
        (query.document.header ++ " \x7b") ::
          (Selection.enclosedAll 1 query.document.selections).map Selection.openingLine ∧
      (lines (query.document.write .indented)).foldlM braceStep [] = some [] ∧
      ∃ front, query.document.write .indented = front ++ "\x7d" := by
  have wellFormed := Group.document_wellFormed compiled
  have hblock := Document.block_write wellFormed
  exact ⟨Document.squeezed_write wellFormed, hblock.filter, hblock.scan rfl, _, rfl⟩

/-- An order with some of its lines. -/
def linesOfOrder : Group :=
  .ofList [("id", .scalar none "ID"),
    ("lines", .group (some (.ofList (some "orderLines") [("first", ⟨"$limit", "Int"⟩)]))
      [("count", .scalar none "Int"), ("price", .scalar none "Float")])]

def linesQuery : Query :=
  { document := ⟨some "Lines", [⟨"limit", .named "Int"⟩], Node.selections linesOfOrder.children⟩
    shape := Node.shape .builtin linesOfOrder.children
    table := .builtin }

theorem texts_differ_in_layout_order :
    linesOfOrder.compile (some "Lines") .builtin = .ok linesQuery ∧
      squeezed ("query Lines($limit: Int) \x7b\n  id\n" ++
          "  lines: orderLines(first: $limit) \x7b\n    count\n    price\n  \x7d\n\x7d") =
        "query Lines($limit: Int) \x7b id " ++
          "lines: orderLines(first: $limit) \x7b count price \x7d \x7d" ∧
      (lines (linesQuery.document.write .indented)).filter (fun text => !isClosing text) =
        ["query Lines($limit: Int) \x7b", "  id", "  lines: orderLines(first: $limit) \x7b",
          "    count", "    price"] := by
  have compiled : linesOfOrder.compile (some "Lines") .builtin = .ok linesQuery := by
    with_unfolding_all rfl
  obtain ⟨hsqueezed, hlines, -⟩ := texts_differ_in_layout compiled
  exact ⟨compiled, hsqueezed, hlines⟩

end Query

end WireQuery
