import WireQuery.Proofs.Result.FirstDefect
import WireQuery.Proofs.Result.PathText
import WireQuery.Proofs.WireType.RoundTrip

/-!
# Errors are located

The error of a refused response is that of its first defect. Its path can be told from its text,
and followed from the root of the response it leads to the defect.
-/

namespace WireQuery
set_option autoImplicit false

def Expected.Proper (table : ScalarTable) : Expected → Prop
  | level slots => (Content.nested slots).Proper table
  | scalar type kind => type.Expressible ∧ kind = table.kindOf type.baseName
  | anything => True

namespace WireType

variable {type : WireType}

theorem Expressible.element {element : WireType} (h : type.Expressible)
    (lists : type.element? = some element) :
    element.Expressible ∧ element.baseName = type.baseName := by
  induction type with
  | named name => cases lists
  | list inner =>
    cases lists
    have hdepth := h.depth
    simp only [listDepth] at hdepth
    exact ⟨⟨h.name, h.canonical, by omega⟩, rfl⟩
  | nonNull inner ih => exact ih ⟨h.name, h.canonical.2, h.depth⟩ lists

theorem Fits.admits {kind : ScalarKind} {j : Json} (h : type.Fits kind j)
    (present : j ≠ .null) : type.Admits kind j := by
  induction type with
  | named name => exact h.resolve_left present
  | list element =>
    obtain ⟨items, hitems, -⟩ := h.resolve_left present
    exact ⟨items, hitems⟩
  | nonNull inner ih => exact ih h.2

theorem admits_of_fits_nullable {kind : ScalarKind} {j : Json} (present : j ≠ .null)
    (h : type.nullable.Fits kind j) : type.Admits kind j := by
  cases type with
  | named name => exact Fits.admits h present
  | list element => exact Fits.admits h present
  | nonNull inner =>
    have hinner : inner.Fits kind j := h
    exact hinner.admits present

end WireType

theorem Content.Proper.expected {table : ScalarTable} {content : Content}
    (h : content.Proper table) : content.expected.Proper table := by
  cases content with
  | leaf leaf =>
    cases leaf with
    | typed type kind => exact h
    | untyped descriptor => trivial
  | nested slots => exact h

namespace Point

variable {table : ScalarTable} {point part : Point} {i : Nat} {step : PathStep}

theorem Part.proper (h : point.Part i step part) (proper : point.expected.Proper table) :
    part.expected.Proper table := by
  cases h with
  | member asked found =>
    exact (slotsProper_iff.mp proper.2 _ (List.mem_of_getElem? asked)).2.expected
  | item here => exact proper
  | element lists here =>
    obtain ⟨expressible, hkind⟩ := proper
    obtain ⟨helement, hbase⟩ := expressible.element lists
    exact ⟨helement, by rw [hbase, hkind]⟩

theorem Part.named (h : point.Part i step part) (proper : point.expected.Proper table)
    (key : String) (hstep : step = .key key) : Name.isValid key = true := by
  cases h with
  | member asked found =>
    cases hstep
    exact (slotsProper_iff.mp proper.2 _ (List.mem_of_getElem? asked)).1
  | item here => cases hstep
  | element lists here => cases hstep

theorem slot?_key {slots : Shape} (proper : (Content.nested slots).Proper table)
    {slot : Slot Content} (asked : slots[i]? = some slot) :
    Shape.slot? slots slot.key = some slot :=
  Keyed.find?_eq_some_of_mem proper.1 (List.mem_of_getElem? asked)

theorem Part.step? (h : point.Part i step part) (proper : point.expected.Proper table) :
    point.step? step = some part := by
  cases h with
  | member asked found => simp [Point.step?, slot?_key proper asked, found]
  | item here => simp [Point.step?, here]
  | element lists here => simp [Point.step?, lists, here]

theorem follow?_append {start middle : Point} {path : ResultPath}
    (h : start.follow? path = some middle) (step : PathStep) :
    start.follow? (path ++ [step]) = middle.step? step := by
  rw [follow?] at h
  rw [follow?, List.foldlM_append, h]
  simp

/-- A point has one part of each number. -/
theorem Part.unique {part' : Point} {step' : PathStep} (h : point.Part i step part)
    (h' : point.Part i step' part') : step = step' ∧ part = part' := by
  cases h with
  | member asked found =>
    cases h' with
    | member asked' found' =>
      cases asked.symm.trans asked'
      cases found.symm.trans found'
      exact ⟨rfl, rfl⟩
  | item here =>
    cases h' with
    | item here' =>
      cases here.symm.trans here'
      exact ⟨rfl, rfl⟩
  | element lists here =>
    cases h' with
    | element lists' here' =>
      cases lists.symm.trans lists'
      cases here.symm.trans here'
      exact ⟨rfl, rfl⟩

end Point

namespace DecodeError

def path : DecodeError → ResultPath
  | missingField path => path
  | unexpectedNull path => path
  | scalarMismatch path _ _ => path
  | malformedResponse path _ => path

/-- What the path of an error leads to from a root. A mismatch names the type there without an
outer non-null modifier, which the value has passed. -/
def Located (table : ScalarTable) (root : Point) : DecodeError → Prop
  | missingField path => ∃ before key slots members slot, path = before ++ [.key key] ∧
      root.follow? before = some ⟨.level slots, .object members⟩ ∧
      Shape.slot? slots key = some slot ∧ members.lookup slot.responseKey = none
  | unexpectedNull path => ∃ inner kind,
      root.follow? path = some ⟨.scalar (.nonNull inner) kind, .null⟩
  | scalarMismatch path expected found => ∃ type kind j,
      root.follow? path = some ⟨.scalar type kind, j⟩ ∧ expected = type.nullable ∧
      WireType.read expected.text = .ok expected ∧ j ≠ .null ∧ j.kind = found ∧
      ¬ expected.Fits (table.kindOf expected.baseName) j
  | malformedResponse path found => ∃ slots j,
      root.follow? path = some ⟨.level slots, j⟩ ∧ j.kind = found ∧
      (path = [] ↔ ∀ members, root.value ≠ .object members) ∧ (path ≠ [] → j.isPlain = true)

end DecodeError

namespace DefectAt

variable {table : ScalarTable} {root point : Point} {path : ResultPath} {place : Place}
  {e e' : DecodeError}

theorem located (h : DefectAt path point place e) (proper : point.expected.Proper table)
    (reached : root.follow? path = some point)
    (object : ∃ members, root.value = .object members) : e.Located table root := by
  induction h with
  | missing asked absent =>
    exact ⟨_, _, _, _, _, rfl, reached, Point.slot?_key proper asked, absent⟩
  | @malformed path slots j plain =>
    obtain ⟨members, hvalue⟩ := object
    have hpath : path ≠ [] := by
      rintro rfl
      cases reached
      cases hvalue
      cases plain
    refine ⟨slots, j, reached, rfl, ?_, fun _ => plain⟩
    constructor
    · intro hnil
      exact absurd hnil hpath
    · intro shapeless
      exact absurd hvalue (shapeless members)
  | null => exact ⟨_, _, reached⟩
  | @mismatch path type kind j present refused =>
    obtain ⟨expressible, rfl⟩ := proper
    refine ⟨type, _, j, reached, rfl, WireType.read_eq_ok.mpr ⟨rfl, expressible.nullable⟩,
      present, rfl, ?_⟩
    simp only [WireType.baseName_nullable]
    exact fun hfits => refused (WireType.admits_of_fits_nullable present hfits)
  | inside leads within ih =>
    apply ih (leads.proper proper)
    rw [Point.follow?_append reached, leads.step? proper]

theorem named (h : DefectAt path point place e) (proper : point.expected.Proper table)
    (hpath : path.Named) : e.path.Named := by
  induction h with
  | missing asked absent =>
    apply hpath.append
    intro key hkey
    cases hkey
    exact (slotsProper_iff.mp proper.2 _ (List.mem_of_getElem? asked)).1
  | malformed plain => exact hpath
  | null => exact hpath
  | mismatch present refused => exact hpath
  | inside leads within ih => exact ih (leads.proper proper) (hpath.append (leads.named proper))

theorem unique (h : DefectAt path point place e) (h' : DefectAt path point place e') : e = e' := by
  -- At one number a member is absent or has an inside, so the place tells the kind of the defect.
  induction h with
  | missing asked absent =>
    cases h' with
    | missing asked' absent' =>
      cases asked.symm.trans asked'
      rfl
    | inside leads within =>
      cases leads with
      | member asked' found =>
        cases asked.symm.trans asked'
        rw [absent] at found
        cases found
  | malformed plain =>
    cases h' with
    | malformed plain' => rfl
  | null =>
    cases h' with
    | null => rfl
    | mismatch present refused => exact absurd rfl present
  | mismatch present refused =>
    cases h' with
    | null => exact absurd rfl present
    | mismatch present' refused' => rfl
  | inside leads within ih =>
    cases h' with
    | missing asked' absent' =>
      cases leads with
      | member asked found =>
        cases asked.symm.trans asked'
        rw [absent'] at found
        cases found
    | inside leads' within' =>
      obtain ⟨rfl, rfl⟩ := leads.unique leads'
      exact ih within'

end DefectAt

namespace Shape

variable {table : ScalarTable} {shape : Shape} {response : Json} {place : Place}
  {e e' : DecodeError}

theorem Defect.unique (h : shape.Defect response place e) (h' : shape.Defect response place e') :
    e = e' := by
  cases h with
  | root shapeless =>
    cases h' with
    | root _ => rfl
    | inside object within => exact absurd object (shapeless _)
  | inside object within =>
    cases h' with
    | root shapeless => exact absurd object (shapeless _)
    | inside _ within' => exact within.unique within'

theorem Defect.located (h : shape.Defect response place e)
    (proper : (Content.nested shape).Proper table) :
    e.path.Named ∧ e.Located table ⟨.level shape, response⟩ := by
  have hnil : ResultPath.Named [] := nofun
  cases h with
  | root shapeless =>
    exact ⟨hnil, shape, response, rfl, rfl, ⟨fun _ => shapeless, fun _ => rfl⟩,
      fun h => absurd rfl h⟩
  | inside object within =>
    exact ⟨within.named proper hnil, within.located proper rfl ⟨_, object⟩⟩

/-- A response is refused with the error of its first defect. The steps of the error's path can be
told from its text, and followed from the root of the response they lead to the defect. -/
theorem error_located {root : Group} {operationName : Option String}
    {table : ScalarTable} {query : Query} (compiled : root.compile operationName table = .ok query)
    (response : Json) :
    (∀ e, query.shape.decode response = .error e ↔
      ∃ place, First (query.shape.Defect response) place e) ∧
    ∀ e, query.shape.decode response = .error e →
      (e.path.Named ∧ ∀ path : ResultPath, path.Named → path.text = e.path.text → path = e.path) ∧
      e.Located table ⟨.level query.shape, response⟩ := by
  have proper := Group.proper_of_compile compiled
  have hfirst : ∀ e, query.shape.decode response = .error e ↔
      ∃ place, First (query.shape.Defect response) place e := fun e =>
    (reports_decode proper response).eq_error_iff fun _ _ _ => Defect.unique
  refine ⟨hfirst, ?_⟩
  intro e refused
  obtain ⟨place, hdefect, -⟩ := (hfirst e).mp refused
  obtain ⟨named, located⟩ := hdefect.located proper
  exact ⟨⟨named, fun path hpath htext => ResultPath.text_injective hpath named htext⟩, located⟩

/-- Lines with their tags, and how many there are. -/
def taggedLines : Group :=
  .ofList [("lines", .group (some (.ofList (some "items") [])) [("qty", .scalar none "Int!"),
      ("tags", .scalar none "[String!]")]),
    ("count", .scalar none "Int!")]

def taggedShape : Shape :=
  [⟨"lines", "lines", .nested [
      ⟨"qty", "qty", .leaf (.typed (.nonNull (.named "Int")) .integer)⟩,
      ⟨"tags", "tags", .leaf (.typed (.list (.nonNull (.named "String"))) .text)⟩]⟩,
    ⟨"count", "count", .leaf (.typed (.nonNull (.named "Int")) .integer)⟩]

/-- A response without a count, and with a tag in the second line that is no text. -/
def untaggedResponse : Json :=
  .object [("lines", .array [.null, .object [("qty", .number (.integer (.ofInt64 4))),
    ("tags", .array [.string "new", .bool true])]])]

theorem error_located_tag :
    ∃ query e, taggedLines.compile none .builtin = .ok query ∧
      query.shape.decode untaggedResponse = .error e ∧
      e.message = "expected `String` at `lines[1].tags[1]`, found boolean" ∧
      (∃ place, First (query.shape.Defect untaggedResponse) place e) ∧
      e.Located .builtin ⟨.level query.shape, untaggedResponse⟩ := by
  have compiled : taggedLines.compile none .builtin = .ok ⟨⟨none, [],
      Node.selections taggedLines.children⟩, taggedShape, .builtin⟩ := by with_unfolding_all rfl
  have refused : taggedShape.decode untaggedResponse = .error (.scalarMismatch
      [.key "lines", .index 1, .key "tags", .index 1] (.named "String") .boolean) := by rfl
  obtain ⟨hfirst, hlocated⟩ := error_located compiled untaggedResponse
  obtain ⟨-, located⟩ := hlocated _ refused
  exact ⟨_, _, compiled, refused, by decide, (hfirst _).mp refused, located⟩

end Shape

end WireQuery
