import WireQuery.Proofs.Keyed
import WireQuery.Proofs.Result.Defect
import WireQuery.Proofs.Text.ByteOrder
import WireQuery.Proofs.WireType.Refused

/-!
# The verdict on bindings

What is wrong with bindings, said without checking them: which parts of a value do not fit its type,
each with its place, which variables are not bound as they are declared, and which names are bound
without being declared. Bindings are refused for the first of these, and accepted if there is none.
-/

namespace WireQuery
set_option autoImplicit false

namespace WireType

/-- The type of the parts that indexes lead to. -/
def partType? : WireType → Place → Option WireType
  | t, [] => some t
  | t, _ :: place => t.element?.bind (partType? · place)

/-- A value is refused as a whole: null where it may not stand, or a value of another form. -/
def Rejects (kind : ScalarKind) (t : WireType) (j : Json) : Prop :=
  (j = .null ∧ t.isNonNull = true) ∨ (j ≠ .null ∧ ¬ t.Admits kind j)

/-- A part of a value at a place where the type refuses it. -/
def MisfitAt (kind : ScalarKind) (t : WireType) (j : Json) (place : Place) (part : Json) : Prop :=
  ∃ type, t.partType? place = some type ∧ j.part? place = some part ∧ type.Rejects kind part

/-- The misfit at the least place, that is the first one from left to right, depth first. -/
structure FirstMisfitAt (kind : ScalarKind) (t : WireType) (j : Json) (place : Place)
    (part : Json) : Prop where
  misfit : t.MisfitAt kind j place part
  first : ∀ place' part', t.MisfitAt kind j place' part' → ¬ place' < place

variable {kind : ScalarKind} {t type : WireType} {j part : Json} {place : Place}

@[simp] theorem misfitAt_nil : t.MisfitAt kind j [] part ↔ part = j ∧ t.Rejects kind j := by
  constructor
  · rintro ⟨type, htype, hpart, hrejects⟩
    cases htype
    cases hpart
    exact ⟨rfl, hrejects⟩
  · rintro ⟨rfl, hrejects⟩
    exact ⟨t, rfl, rfl, hrejects⟩

theorem misfitAt_item {element : WireType} {items : List Json} {i : Nat} :
    (list element).MisfitAt kind (.array items) (i :: place) part ↔
      ∃ item, items[i]? = some item ∧ element.MisfitAt kind item place part := by
  constructor
  · rintro ⟨type, htype, hpart, hrejects⟩
    obtain ⟨item, hitem, hpart⟩ := Option.bind_eq_some_iff.mp hpart
    exact ⟨item, hitem, type, htype, hpart, hrejects⟩
  · rintro ⟨item, hitem, type, htype, hpart, hrejects⟩
    exact ⟨type, htype, Option.bind_eq_some_iff.mpr ⟨item, hitem, hpart⟩, hrejects⟩

theorem not_rejects_array {element : WireType} {items : List Json} :
    ¬ (list element).Rejects kind (.array items) := by
  rintro (⟨hnull, -⟩ | ⟨-, hform⟩)
  · cases hnull
  · exact hform ⟨items, rfl⟩

/-- Of a value that is not null, a non-null type refuses what the type inside refuses. -/
theorem misfitAt_nonNull {inner : WireType} (present : j ≠ .null) :
    (nonNull inner).MisfitAt kind j place part ↔ inner.MisfitAt kind j place part := by
  cases place with
  | nil =>
    rw [misfitAt_nil, misfitAt_nil]
    simp [Rejects, present, Admits]
  | cons i place => exact Iff.rfl

/-- No part of a value that fits is a misfit. -/
theorem Fits.not_misfitAt (h : t.Fits kind j) : ¬ t.MisfitAt kind j place part := by
  induction t generalizing j place with
  | named name =>
    intro hmisfit
    cases place with
    | nil =>
      obtain ⟨-, ⟨-, hrequired⟩ | ⟨present, hform⟩⟩ := misfitAt_nil.mp hmisfit
      · cases hrequired
      · exact hform (h.resolve_left present)
    | cons i place =>
      obtain ⟨type, htype, -⟩ := hmisfit
      cases htype
  | list element ih =>
    intro hmisfit
    rcases h with rfl | ⟨items, rfl, hitems⟩
    · cases place with
      | nil =>
        obtain ⟨-, ⟨-, hrequired⟩ | ⟨present, -⟩⟩ := misfitAt_nil.mp hmisfit
        · cases hrequired
        · exact present rfl
      | cons i place =>
        obtain ⟨type, -, hpart, -⟩ := hmisfit
        cases hpart
    · cases place with
      | nil => exact not_rejects_array (misfitAt_nil.mp hmisfit).2
      | cons i place =>
        obtain ⟨item, hitem, hinside⟩ := misfitAt_item.mp hmisfit
        exact ih (hitems item (List.mem_of_getElem? hitem)) hinside
  | nonNull inner ih =>
    intro hmisfit
    exact ih h.2 ((misfitAt_nonNull h.1).mp hmisfit)

theorem firstMisfitAt_whole (h : t.Rejects kind j) : t.FirstMisfitAt kind j [] j where
  misfit := misfitAt_nil.mpr ⟨rfl, h⟩
  first := fun place' _ _ => List.not_lt_nil place'

/-- The part at which a check stops is the first misfit. -/
theorem FirstRefused.firstMisfitAt (h : t.FirstRefused kind j place type part) :
    t.FirstMisfitAt kind j place part := by
  induction h with
  | scalar present refused =>
    apply firstMisfitAt_whole
    exact Or.inr ⟨present, Bool.eq_false_iff.mp refused⟩
  | shapeless present shapeless =>
    apply firstMisfitAt_whole
    refine Or.inr ⟨present, ?_⟩
    rintro ⟨items, rfl⟩
    exact shapeless items rfl
  | @item element type before rest j part place fit _ ih =>
    constructor
    case misfit =>
      apply misfitAt_item.mpr
      exact ⟨j, by simp, ih.misfit⟩
    case first =>
      intro place' part' hmisfit hlt
      cases place' with
      | nil => exact not_rejects_array (misfitAt_nil.mp hmisfit).2
      | cons i place' =>
        obtain ⟨item, hitem, hinside⟩ := misfitAt_item.mp hmisfit
        rcases List.cons_lt_cons_iff.mp hlt with hbefore | ⟨rfl, hwithin⟩
        · rw [List.getElem?_append_left hbefore] at hitem
          exact (fit item (List.mem_of_getElem? hitem)).not_misfitAt hinside
        · simp only [List.getElem?_append_right (Nat.le_refl _), Nat.sub_self,
            List.getElem?_cons_zero, Option.some.injEq] at hitem
          subst hitem
          exact ih.first place' part' hinside hwithin
  | null inner =>
    apply firstMisfitAt_whole
    exact Or.inl ⟨rfl, rfl⟩
  | inside present _ ih =>
    constructor
    · exact (misfitAt_nonNull present).mpr ih.misfit
    · intro place' part' hmisfit
      exact ih.first place' part' ((misfitAt_nonNull present).mp hmisfit)

theorem FirstMisfitAt.unique {place' : Place} {part' : Json}
    (h : t.FirstMisfitAt kind j place part) (h' : t.FirstMisfitAt kind j place' part') :
    part = part' := by
  have hplace : place = place' :=
    List.le_antisymm (h.first place' part' h'.misfit) (h'.first place part h.misfit)
  obtain ⟨_, -, hpart, -⟩ := h.misfit
  obtain ⟨_, -, hpart', -⟩ := h'.misfit
  rw [hplace, hpart'] at hpart
  exact (Option.some.inj hpart).symm

theorem misfit?_eq_some_iff {table : ScalarTable} {found : Json.Kind} :
    t.misfit? table j = some found ↔ ∃ place part,
      t.FirstMisfitAt (table.kindOf t.baseName) j place part ∧ part.kind = found := by
  constructor
  · intro h
    obtain ⟨place, type, part, hrefused, hkind⟩ := misfit?_eq_some.mp h
    exact ⟨place, part, hrefused.firstMisfitAt, hkind⟩
  · rintro ⟨place, part, hfirst, rfl⟩
    cases hmisfit : t.misfit? table j with
    | none => exact absurd hfirst.misfit (misfit?_eq_none.mp hmisfit).not_misfitAt
    | some found =>
      obtain ⟨place', type, part', hrefused, rfl⟩ := misfit?_eq_some.mp hmisfit
      rw [hrefused.firstMisfitAt.unique hfirst]

end WireType

namespace VariableDefinition

variable {table : ScalarTable} {bindings : Bindings} {d : VariableDefinition} {e : BindingError}

/-- The variable is bound to a value of its type. -/
def Met (table : ScalarTable) (bindings : Bindings) (d : VariableDefinition) : Prop :=
  ∃ j, bindings.get? d.name = some j ∧ d.type.Fits (table.kindOf d.type.baseName) j

/-- What is wrong with the binding of a variable. A misfit is reported with the whole type and with
the kind of the part that is the first misfit. -/
inductive Fault (table : ScalarTable) (bindings : Bindings) (d : VariableDefinition) :
    BindingError → Prop where
  | missing (unbound : bindings.get? d.name = none) :
      Fault table bindings d (.missingVariable d.name)
  | mismatch {j part : Json} {place : Place} (bound : bindings.get? d.name = some j)
      (misfit : d.type.FirstMisfitAt (table.kindOf d.type.baseName) j place part) :
      Fault table bindings d (.typeMismatch d.name d.type part.kind)

theorem checkBinding_eq_error :
    d.checkBinding table bindings = .error e ↔ d.Fault table bindings e := by
  unfold checkBinding
  constructor
  · intro h
    split at h
    · next unbound =>
      cases h
      exact .missing unbound
    · next j bound =>
      split at h
      · cases h
      · next found hfound =>
        cases h
        obtain ⟨place, part, hfirst, rfl⟩ := WireType.misfit?_eq_some_iff.mp hfound
        exact .mismatch bound hfirst
  · intro h
    cases h with
    | missing unbound => rw [unbound]
    | @mismatch j part place bound misfit =>
      have hfound := WireType.misfit?_eq_some_iff.mpr ⟨place, part, misfit, rfl⟩
      simp only [bound, hfound]

end VariableDefinition

namespace Document

/-- What is wrong first with bindings: the first variable in the order of declarations that is not
bound as declared, or else the least name in the order of bytes that is bound without being
declared. -/
inductive FirstFault (document : Document) (table : ScalarTable) (bindings : Bindings) :
    BindingError → Prop where
  | declared {before rest : List VariableDefinition} {d : VariableDefinition} {e : BindingError}
      (split : document.definitions = before ++ d :: rest)
      (met : ∀ earlier ∈ before, earlier.Met table bindings) (fault : d.Fault table bindings e) :
      FirstFault document table bindings e
  | undeclared {name : String} (met : ∀ d ∈ document.definitions, d.Met table bindings)
      (bound : name ∈ Keyed.keys bindings.entries)
      (undeclared : ∀ d ∈ document.definitions, d.name ≠ name)
      (least : ∀ other ∈ Keyed.keys bindings.entries,
        (∀ d ∈ document.definitions, d.name ≠ other) → utf8Bytes name ≤ utf8Bytes other) :
      FirstFault document table bindings (.unexpectedVariable name)

variable {document : Document} {table : ScalarTable} {bindings : Bindings} {e : BindingError}

theorem definition?_isNone_iff {name : String} :
    (document.definition? name).isNone = true ↔ ∀ d ∈ document.definitions, d.name ≠ name := by
  rw [← Bool.not_eq_false, definition?_isNone]
  simp

/-- The search among the bound names finds the least that is not declared. -/
theorem find?_undeclared {binding : String × Json} :
    bindings.entries.find? (fun binding => (document.definition? binding.1).isNone) =
        some binding ↔
      binding ∈ bindings.entries ∧ (∀ d ∈ document.definitions, d.name ≠ binding.1) ∧
        ∀ other ∈ bindings.entries, (∀ d ∈ document.definitions, d.name ≠ other.1) →
          utf8Bytes binding.1 ≤ utf8Bytes other.1 := by
  have hascending := List.pairwise_map.mp bindings.ascending
  rw [Keyed.find?_eq_some_of_pairwise hascending (fun a => String.lt_irrefl a.1) String.lt_trans]
  simp only [definition?_isNone_iff, ← utf8Bytes_lt_iff]
  rfl

theorem checkBindings_eq_error :
    document.checkBindings table bindings = .error e ↔
      document.FirstFault table bindings e := by
  unfold checkBindings
  rw [Outcome.bind_eq_error]
  constructor
  · rintro (hvariables | ⟨_, hmet, hnames⟩)
    · obtain ⟨before, d, rest, hsplit, hbefore, hd⟩ := Outcome.forM_eq_error.mp hvariables
      apply FirstFault.declared hsplit
      · exact fun earlier hmem => VariableDefinition.checkBinding_eq_ok.mp (hbefore earlier hmem)
      · exact VariableDefinition.checkBinding_eq_error.mp hd
    · split at hnames
      · cases hnames
      · next binding hfound =>
        cases hnames
        obtain ⟨hbound, hundeclared, hleast⟩ := find?_undeclared.mp hfound
        apply FirstFault.undeclared
        · intro d hd
          exact VariableDefinition.checkBinding_eq_ok.mp (Outcome.forM_eq_ok.mp hmet d hd)
        · exact List.mem_map_of_mem hbound
        · exact hundeclared
        · exact List.forall_mem_map.mpr hleast
  · intro h
    cases h with
    | declared split met fault =>
      left
      apply Outcome.forM_eq_error.mpr
      refine ⟨_, _, _, split, ?_, VariableDefinition.checkBinding_eq_error.mpr fault⟩
      exact fun earlier hmem => VariableDefinition.checkBinding_eq_ok.mpr (met earlier hmem)
    | undeclared met bound undeclared least =>
      right
      obtain ⟨binding, hbinding, rfl⟩ := List.mem_map.mp bound
      have hfound := find?_undeclared.mpr ⟨hbinding, undeclared, List.forall_mem_map.mp least⟩
      refine ⟨⟨⟩, ?_, ?_⟩
      · apply Outcome.forM_eq_ok.mpr
        exact fun d hd => VariableDefinition.checkBinding_eq_ok.mpr (met d hd)
      · rw [hfound]

end Document

theorem Bindings.mem_keys_iff {bindings : Bindings} {name : String} :
    name ∈ Keyed.keys bindings.entries ↔ ∃ j, bindings.get? name = some j := by
  constructor
  · intro h
    obtain ⟨⟨_, j⟩, hmem, rfl⟩ := List.mem_map.mp h
    exact Keyed.exists_lookup_of_mem hmem
  · rintro ⟨j, hj⟩
    exact List.mem_map_of_mem (Keyed.mem_of_lookup hj)

/-- Bindings are accepted exactly if the bound names are the declared variables and each value fits
the type of its variable. Otherwise they are refused for what is wrong with them first. -/
theorem Document.checkBindings_exact (document : Document) (table : ScalarTable)
    (bindings : Bindings) :
    (document.checkBindings table bindings = .ok () ↔
      (∀ name, name ∈ Keyed.keys bindings.entries ↔ ∃ d ∈ document.definitions, d.name = name) ∧
      ∀ d ∈ document.definitions, ∀ j, bindings.get? d.name = some j →
        d.type.Fits (table.kindOf d.type.baseName) j) ∧
    ∀ e, document.checkBindings table bindings = .error e ↔
      document.FirstFault table bindings e := by
  refine ⟨?_, fun e => checkBindings_eq_error⟩
  rw [checkBindings_eq_ok]
  constructor
  · rintro ⟨hbound, hdeclared⟩
    refine ⟨fun name => ⟨hdeclared name, ?_⟩, ?_⟩
    · rintro ⟨d, hd, rfl⟩
      obtain ⟨j, hj, -⟩ := hbound d hd
      exact Bindings.mem_keys_iff.mpr ⟨j, hj⟩
    · intro d hd j hj
      obtain ⟨j', hj', hfits⟩ := hbound d hd
      rw [hj] at hj'
      cases hj'
      exact hfits
  · rintro ⟨hnames, hfits⟩
    refine ⟨?_, fun name => (hnames name).mp⟩
    intro d hd
    obtain ⟨j, hj⟩ := Bindings.mem_keys_iff.mp ((hnames d.name).mpr ⟨d, hd, rfl⟩)
    exact ⟨j, hj, hfits d hd j hj⟩

/-- A value that does not fit, an unbound variable and a name that is not declared: the variable
that is declared first decides. -/
example : Document.checkBindings
    ⟨none, [⟨"ids", .list (.nonNull (.named "ID"))⟩, ⟨"page", .named "Int"⟩], []⟩ .builtin
    (.ofMembers [("all", .bool true), ("ids", .array [.string "a", .null, .bool true])]) =
      .error (.typeMismatch "ids" (.list (.nonNull (.named "ID"))) .null) := by rfl

end WireQuery
