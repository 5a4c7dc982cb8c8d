import WireQuery.Proofs.Spec.Grammar

/-!
# Parts of an operation

The reader fills the parts member by member and refuses a part that is there already. What it ends
with is what the members give as a whole.
-/

namespace WireQuery
set_option autoImplicit false

namespace Node

theorem fieldOfJson?_eq_some {j : Json} {name : Option String} :
    fieldOfJson? j = some name ↔ FieldDenotes j name := by
  constructor
  · intro h
    cases j <;> cases h
    · exact .null
    · exact .name _
  · rintro (_ | _) <;> rfl

theorem referenceOfJson?_eq_some {j : Json} {v : VariableRef} :
    referenceOfJson? j = some v ↔ j = .array [.string v.written, .string v.descriptor] := by
  constructor
  · intro h
    unfold referenceOfJson? at h
    split at h <;> cases h
    rfl
  · rintro rfl
    rfl

theorem argumentsOfMembers?_eq_some {members : List (String × Json)}
    {references : List (String × VariableRef)} :
    argumentsOfMembers? members = some references ↔
      List.Forall₂ (fun member reference => reference.1 = member.1 ∧
        member.2 = .array [.string reference.2.written, .string reference.2.descriptor])
        members references := by
  induction members generalizing references with
  | nil =>
    rw [argumentsOfMembers?, List.forall₂_nil_left_iff, Option.some.injEq]
    exact eq_comm
  | cons member rest ih =>
    rw [argumentsOfMembers?, List.forall₂_cons_left_iff]
    constructor
    · intro h
      obtain ⟨reference, hreference, h⟩ := Option.bind_eq_some_iff.mp h
      obtain ⟨others, hothers, heq⟩ := Option.bind_eq_some_iff.mp h
      cases heq
      exact ⟨_, others, ⟨rfl, referenceOfJson?_eq_some.mp hreference⟩, ih.mp hothers, rfl⟩
    · rintro ⟨reference, others, ⟨hkey, hpair⟩, hothers, rfl⟩
      rw [referenceOfJson?_eq_some.mpr hpair, ih.mpr hothers]
      obtain ⟨key, v⟩ := reference
      cases hkey
      rfl

theorem argumentsOfJson?_eq_some {j : Json} {arguments : List (String × VariableRef)} :
    argumentsOfJson? j = some arguments ↔ ArgumentsDenote j arguments := by
  constructor
  · intro h
    cases j <;> try cases h
    exact .object (argumentsOfMembers?_eq_some.mp h)
  · intro h
    cases h with
    | object each => exact argumentsOfMembers?_eq_some.mpr each

/-- What one member adds to the parts. -/
def Parts.fill? (parts : Parts) (member : String × Json) : Option Parts :=
  if member.1 = "field" ∧ parts.field.isNone then
    (fun field => { parts with field := some field }) <$> fieldOfJson? member.2
  else if member.1 = "args" ∧ parts.arguments.isNone then
    (fun arguments => { parts with arguments := some arguments }) <$> argumentsOfJson? member.2
  else if member.1 = "body" ∧ parts.body.isNone then
    (fun body => { parts with body := some body }) <$> bodyOfJson? member.2
  else none

theorem operationOfParts?_eq (parts : Parts) (members : List (String × Json)) :
    operationOfParts? parts members = members.foldlM Parts.fill? parts >>= Parts.node? := by
  induction members generalizing parts with
  | nil => rfl
  | cons member rest ih =>
    rw [operationOfParts?, List.foldlM_cons, Parts.fill?]
    split
    · cases fieldOfJson? member.2 with
      | none => rfl
      | some field => exact ih _
    · split
      · cases argumentsOfJson? member.2 with
        | none => rfl
        | some arguments => exact ih _
      · split
        · cases bodyOfJson? member.2 with
          | none => rfl
          | some body => exact ih _
        · rfl

/-- A part holds what the member of its name is read as, and nothing if there is none. -/
def Slot {α : Type} (read : Json → Option α) (members : List (String × Json)) (key : String)
    (part : Option α) : Prop :=
  Option.Rel (fun j value => read j = some value) (members.lookup key) part

namespace Slot

variable {α : Type} {read : Json → Option α} {members : List (String × Json)}
  {key key' : String} {j : Json} {part : Option α}

theorem none_iff (h : Slot read members key part) : part = none ↔ key ∉ Keyed.keys members := by
  constructor
  · rintro rfl hkey
    obtain ⟨⟨key, found⟩, hfound, rfl⟩ := List.mem_map.mp hkey
    obtain ⟨j, hj⟩ := Keyed.exists_lookup_of_mem hfound
    rw [Slot, hj] at h
    cases h
  · intro hkey
    rw [Slot, Keyed.lookup_eq_none_of_not_mem hkey] at h
    cases h
    rfl

theorem of_not_mem (hkey : key ∉ Keyed.keys members) : Slot read members key none := by
  rw [Slot, Keyed.lookup_eq_none_of_not_mem hkey]
  exact .none

theorem append_of_ne (hne : key ≠ key') :
    Slot read (members ++ [(key', j)]) key part ↔ Slot read members key part := by
  have hlookup : (members ++ [(key', j)]).lookup key = members.lookup key := by
    rw [List.lookup_append, Keyed.lookup_cons_eq, if_neg hne, List.lookup_nil, Option.or_none]
  rw [Slot, Slot, hlookup]

theorem append_self (hkey : key ∉ Keyed.keys members) :
    Slot read (members ++ [(key, j)]) key part ↔
      ∃ value, read j = some value ∧ part = some value := by
  have hlookup : (members ++ [(key, j)]).lookup key = some j := by
    rw [List.lookup_append, Keyed.lookup_eq_none_of_not_mem hkey, Keyed.lookup_cons_eq,
      if_pos rfl, Option.none_or]
  rw [Slot, hlookup]
  constructor
  · intro h
    cases h with
    | some hread => exact ⟨_, hread, rfl⟩
  · rintro ⟨value, hread, rfl⟩
    exact .some hread

end Slot

theorem partsOnly_append {members : List (String × Json)} {key : String} {j : Json} :
    PartsOnly (members ++ [(key, j)]) ↔
      PartsOnly members ∧ key ∉ Keyed.keys members ∧ key ∈ partNames := by
  have hkeys : Keyed.keys (members ++ [(key, j)]) = Keyed.keys members ++ [key] :=
    List.map_append
  rw [PartsOnly, Keyed.distinctKeys_append_singleton, hkeys, List.forall_mem_append,
    List.forall_mem_singleton]
  exact and_and_and_comm

/-- The parts are what the members give. -/
structure Parts.Gives (members : List (String × Json)) (parts : Parts) : Prop where
  only : PartsOnly members
  field : Slot fieldOfJson? members "field" parts.field
  arguments : Slot argumentsOfJson? members "args" parts.arguments
  body : Slot bodyOfJson? members "body" parts.body

namespace Parts

variable {members : List (String × Json)} {member : String × Json} {parts parts' : Parts}

theorem gives_nil : Gives [] parts ↔ parts = ⟨none, none, none⟩ := by
  constructor
  · rintro ⟨-, field, arguments, body⟩
    obtain ⟨f, a, b⟩ := parts
    cases field
    cases arguments
    cases body
    rfl
  · rintro rfl
    exact ⟨⟨List.nodup_nil, nofun⟩, .none, .none, .none⟩

theorem Gives.fill (h : Gives members parts) (filled : parts.fill? member = some parts') :
    Gives (members ++ [member]) parts' := by
  obtain ⟨key, j⟩ := member
  unfold fill? at filled
  split at filled
  · next hfield =>
    obtain ⟨rfl, hnone⟩ := hfield
    obtain ⟨field, hread, rfl⟩ := Option.map_eq_some_iff.mp filled
    have hkey := h.field.none_iff.mp (Option.isNone_iff_eq_none.mp hnone)
    exact ⟨partsOnly_append.mpr ⟨h.only, hkey, by decide⟩,
      (Slot.append_self hkey).mpr ⟨field, hread, rfl⟩,
      (Slot.append_of_ne (by decide)).mpr h.arguments,
      (Slot.append_of_ne (by decide)).mpr h.body⟩
  · split at filled
    · next harguments =>
      obtain ⟨rfl, hnone⟩ := harguments
      obtain ⟨arguments, hread, rfl⟩ := Option.map_eq_some_iff.mp filled
      have hkey := h.arguments.none_iff.mp (Option.isNone_iff_eq_none.mp hnone)
      exact ⟨partsOnly_append.mpr ⟨h.only, hkey, by decide⟩,
        (Slot.append_of_ne (by decide)).mpr h.field,
        (Slot.append_self hkey).mpr ⟨arguments, hread, rfl⟩,
        (Slot.append_of_ne (by decide)).mpr h.body⟩
    · split at filled
      · next hbody =>
        obtain ⟨rfl, hnone⟩ := hbody
        obtain ⟨body, hread, rfl⟩ := Option.map_eq_some_iff.mp filled
        have hkey := h.body.none_iff.mp (Option.isNone_iff_eq_none.mp hnone)
        exact ⟨partsOnly_append.mpr ⟨h.only, hkey, by decide⟩,
          (Slot.append_of_ne (by decide)).mpr h.field,
          (Slot.append_of_ne (by decide)).mpr h.arguments,
          (Slot.append_self hkey).mpr ⟨body, hread, rfl⟩⟩
      · cases filled

theorem Gives.exists_fill (h : Gives (members ++ [member]) parts') :
    ∃ parts, Gives members parts ∧ parts.fill? member = some parts' := by
  obtain ⟨key, j⟩ := member
  obtain ⟨field', arguments', body'⟩ := parts'
  obtain ⟨hmembers, hkey, hname⟩ := partsOnly_append.mp h.only
  simp only [partNames, List.mem_cons, List.not_mem_nil, or_false] at hname hkey
  rcases hname with rfl | rfl | rfl
  · obtain ⟨field, hread, rfl⟩ := (Slot.append_self hkey).mp h.field
    refine ⟨⟨none, arguments', body'⟩, ⟨hmembers, .of_not_mem hkey,
      (Slot.append_of_ne (by decide)).mp h.arguments,
      (Slot.append_of_ne (by decide)).mp h.body⟩, ?_⟩
    simp [fill?, hread]
  · obtain ⟨arguments, hread, rfl⟩ := (Slot.append_self hkey).mp h.arguments
    refine ⟨⟨field', none, body'⟩, ⟨hmembers, (Slot.append_of_ne (by decide)).mp h.field,
      .of_not_mem hkey, (Slot.append_of_ne (by decide)).mp h.body⟩, ?_⟩
    simp [fill?, hread]
  · obtain ⟨body, hread, rfl⟩ := (Slot.append_self hkey).mp h.body
    refine ⟨⟨field', arguments', none⟩, ⟨hmembers, (Slot.append_of_ne (by decide)).mp h.field,
      (Slot.append_of_ne (by decide)).mp h.arguments, .of_not_mem hkey⟩, ?_⟩
    simp [fill?, hread]

theorem foldlM_fill?_eq_some :
    members.foldlM fill? ⟨none, none, none⟩ = some parts ↔ Gives members parts := by
  -- Whether a member is taken depends on those before it, so the last one is split off.
  induction members using List.reverseRecOn generalizing parts with
  | nil =>
    rw [gives_nil, List.foldlM_nil, Option.pure_def, Option.some.injEq]
    exact eq_comm
  | append_singleton members member ih =>
    rw [List.foldlM_append]
    constructor
    · intro h
      obtain ⟨before, hbefore, hfill⟩ := Option.bind_eq_some_iff.mp h
      rw [List.foldlM_cons] at hfill
      obtain ⟨after, hafter, heq⟩ := Option.bind_eq_some_iff.mp hfill
      cases heq
      exact (ih.mp hbefore).fill hafter
    · intro h
      obtain ⟨before, hbefore, hfill⟩ := h.exists_fill
      rw [ih.mpr hbefore]
      simp [hfill]

end Parts

theorem operationOfJson?_object {members : List (String × Json)} {node : Node} :
    operationOfJson? (.object members) = some node ↔
      ∃ parts, Parts.Gives members parts ∧ parts.node? = some node := by
  rw [operationOfJson?, operationOfParts?_eq]
  simp only [Option.bind_eq_bind, Option.bind_eq_some_iff, Parts.foldlM_fill?_eq_some]

end Node

end WireQuery
