import WireQuery.Proofs.Spec.Parts

/-!
# Nodes are read exactly

The reader of nodes takes the values that the grammar with arrays admits, and returns what they
denote there.
-/

namespace WireQuery
set_option autoImplicit false

namespace Node

/-- The values that are read as what they denote. -/
structure Exact (j : Json) : Prop where
  node : ∀ node, ofJson? j = some node ↔ Denotes true j node
  operation : ∀ node, operationOfJson? j = some node ↔ OperationDenotes true j node
  body : ∀ node, bodyOfJson? j = some node ↔ BodyDenotes true j node

variable {members : List (String × Json)} {node : Node}

theorem childrenOfMembers?_eq_some (ih : ∀ member ∈ members, Exact member.2)
    {children : List (String × Node)} :
    childrenOfMembers? members = some children ↔ ChildrenDenote true members children := by
  induction members generalizing children with
  | nil =>
    constructor
    · intro h
      cases h
      exact .nil
    · intro h
      cases h
      rfl
  | cons member rest ihrest =>
    obtain ⟨hmember, hrest⟩ := List.forall_mem_cons.mp ih
    rw [childrenOfMembers?]
    constructor
    · intro h
      split at h
      · next node others hnode hothers =>
        cases h
        exact .cons ((hmember.node node).mp hnode) ((ihrest hrest).mp hothers)
      · cases h
    · intro h
      cases h with
      | cons first others => rw [(hmember.node _).mpr first, (ihrest hrest).mpr others]

theorem groupOfMembers?_eq_some (ih : ∀ member ∈ members, Exact member.2) :
    (fun children => group none (Keyed.ofList children)) <$> childrenOfMembers? members =
        some node ↔
      ∃ children kept, ChildrenDenote true members children ∧ Keyed.Resolves children kept ∧
        node = group none kept := by
  constructor
  · intro h
    obtain ⟨children, hchildren, rfl⟩ := Option.map_eq_some_iff.mp h
    exact ⟨children, _, (childrenOfMembers?_eq_some ih).mp hchildren,
      Keyed.resolves_ofList children, rfl⟩
  · rintro ⟨children, kept, hchildren, hkept, rfl⟩
    rw [(childrenOfMembers?_eq_some ih).mpr hchildren, Keyed.resolves_iff.mp hkept]
    rfl

theorem bodyOfJson?_object (ih : ∀ member ∈ members, Exact member.2) :
    bodyOfJson? (.object members) = some node ↔ BodyDenotes true (.object members) node := by
  rw [bodyOfJson?, groupOfMembers?_eq_some ih]
  constructor
  · rintro ⟨children, kept, hchildren, hkept, rfl⟩
    exact .group hchildren hkept
  · intro h
    cases h with
    | group each resolved => exact ⟨_, _, each, resolved, rfl⟩

theorem slot_iff {α : Type} {read : Json → Option α} {R : Json → α → Prop} {key : String}
    {part : Option α} (h : ∀ j value, read j = some value ↔ R j value) :
    Slot read members key part ↔ Option.Rel R (members.lookup key) part := by
  have heq : (fun j value => read j = some value) = R := by
    funext j value
    exact propext (h j value)
  rw [Slot, heq]

theorem operationOfJson?_eq_some (ih : ∀ member ∈ members, Exact member.2) :
    operationOfJson? (.object members) = some node ↔
      OperationDenotes true (.object members) node := by
  rw [operationOfJson?_object]
  constructor
  · rintro ⟨⟨field, arguments, body?⟩, ⟨only, hfield, harguments, hbody⟩, hnode⟩
    obtain ⟨body, rfl, heq⟩ := Option.bind_eq_some_iff.mp hnode
    cases heq
    obtain ⟨j, hj, hread⟩ : ∃ j, members.lookup "body" = some j ∧ bodyOfJson? j = some body := by
      cases hlookup : members.lookup "body" <;> rw [Slot, hlookup] at hbody <;> cases hbody
      exact ⟨_, rfl, ‹_›⟩
    exact .parts only ((slot_iff fun _ _ => fieldOfJson?_eq_some).mp hfield)
      ((slot_iff fun _ _ => argumentsOfJson?_eq_some).mp harguments)
      (Call.resolves_iff.mpr rfl) hj (((ih _ (Keyed.mem_of_lookup hj)).body body).mp hread)
  · intro h
    cases h with
    | @parts _ field arguments j call body only named bound resolved given selected =>
      cases Call.resolves_iff.mp resolved
      have hbody := ((ih _ (Keyed.mem_of_lookup given)).body body).mpr selected
      refine ⟨⟨field, arguments, some body⟩, ⟨only, ?_, ?_, ?_⟩, rfl⟩
      · exact (slot_iff fun _ _ => fieldOfJson?_eq_some).mpr named
      · exact (slot_iff fun _ _ => argumentsOfJson?_eq_some).mpr bound
      · rw [Slot, given]
        exact .some hbody

theorem operationOfJson?_array {items : List Json} (ih : ∀ item ∈ items, Exact item) :
    operationOfJson? (.array items) = some node ↔ OperationDenotes true (.array items) node := by
  constructor
  · intro h
    unfold operationOfJson? at h
    split at h
    · next heq => cases heq
    · next field arguments body heq =>
      cases heq
      obtain ⟨name, hname, h⟩ := Option.bind_eq_some_iff.mp h
      obtain ⟨references, hreferences, h⟩ := Option.bind_eq_some_iff.mp h
      obtain ⟨selected, hselected, h⟩ := Option.bind_eq_some_iff.mp h
      cases h
      exact .inOrder rfl (fieldOfJson?_eq_some.mp hname) (argumentsOfJson?_eq_some.mp hreferences)
        (Call.resolves_iff.mpr rfl) (((ih body (by simp)).body selected).mp hselected)
    · cases h
  · intro h
    cases h with
    | inOrder _ named bound resolved selected =>
      rw [Call.resolves_iff.mp resolved, operationOfJson?, fieldOfJson?_eq_some.mpr named,
        argumentsOfJson?_eq_some.mpr bound, ((ih _ (by simp)).body _).mpr selected]
      rfl

/-- The mark counts only if it stands alone and what it holds is an operation. -/
theorem operationOfMembers?_eq_some (ih : ∀ member ∈ members, Exact member.2) :
    operationOfMembers? members = some node ↔ ∃ payload,
      members = [(operationKey, payload)] ∧ OperationDenotes true payload node := by
  constructor
  · intro h
    unfold operationOfMembers? at h
    split at h
    · next member =>
      obtain ⟨key, payload⟩ := member
      split at h
      · next hkey =>
        cases hkey
        exact ⟨payload, rfl, ((ih _ (List.mem_singleton_self _)).operation node).mp h⟩
      · cases h
    · cases h
  · rintro ⟨payload, rfl, hpayload⟩
    rw [operationOfMembers?, if_pos rfl]
    exact ((ih _ (List.mem_singleton_self _)).operation node).mpr hpayload

theorem operationOfMembers?_eq_none (ih : ∀ member ∈ members, Exact member.2) :
    operationOfMembers? members = none ↔
      ∀ payload, members = [(operationKey, payload)] → ¬OperationForm true payload := by
  rw [Option.eq_none_iff_forall_ne_some]
  constructor
  · intro h payload hmembers hform
    obtain ⟨node, hnode⟩ := (settled true payload).operation.mpr hform
    exact h node ((operationOfMembers?_eq_some ih).mpr ⟨payload, hmembers, hnode⟩)
  · intro h node hnode
    obtain ⟨payload, hmembers, hpayload⟩ := (operationOfMembers?_eq_some ih).mp hnode
    exact h payload hmembers ((settled true payload).operation.mp ⟨node, hpayload⟩)

theorem ofJson?_object (ih : ∀ member ∈ members, Exact member.2) :
    ofJson? (.object members) = some node ↔ Denotes true (.object members) node := by
  rw [ofJson?]
  cases hoperation : operationOfMembers? members with
  | some operation =>
    obtain ⟨payload, rfl, hpayload⟩ := (operationOfMembers?_eq_some ih).mp hoperation
    constructor
    · intro h
      cases h
      exact .operation hpayload
    · intro h
      cases h with
      | operation marked =>
        exact hoperation.symm.trans ((operationOfMembers?_eq_some ih).mpr ⟨_, rfl, marked⟩)
      | group other =>
        exact (other payload rfl ((settled true payload).operation.mp ⟨_, hpayload⟩)).elim
  | none =>
    have hother := (operationOfMembers?_eq_none ih).mp hoperation
    rw [groupOfMembers?_eq_some ih]
    constructor
    · rintro ⟨children, kept, hchildren, hkept, rfl⟩
      exact .group hother hchildren hkept
    · intro h
      cases h with
      | operation marked =>
        exact (hother _ rfl ((settled true _).operation.mp ⟨_, marked⟩)).elim
      | group _ each resolved => exact ⟨_, _, each, resolved, rfl⟩

theorem ofJson?_array {items : List Json} (ih : ∀ item ∈ items, Exact item) :
    ofJson? (.array items) = some node ↔ Denotes true (.array items) node := by
  constructor
  · intro h
    unfold ofJson? at h
    split at h
    · next heq => cases heq
    · next payload heq =>
      cases heq
      exact .unmarked rfl (((ih _ (List.mem_singleton_self _)).operation node).mp h)
    · next heq => cases heq
    · cases h
  · intro h
    cases h with
    | unmarked _ operation =>
      exact ((ih _ (List.mem_singleton_self _)).operation node).mpr operation

theorem exact (j : Json) : Exact j := by
  induction j using Json.induction with
  | null => exact ⟨fun _ => ⟨nofun, nofun⟩, fun _ => ⟨nofun, nofun⟩, fun _ => ⟨nofun, nofun⟩⟩
  | bool b => exact ⟨fun _ => ⟨nofun, nofun⟩, fun _ => ⟨nofun, nofun⟩, fun _ => ⟨nofun, nofun⟩⟩
  | number n => exact ⟨fun _ => ⟨nofun, nofun⟩, fun _ => ⟨nofun, nofun⟩, fun _ => ⟨nofun, nofun⟩⟩
  | string descriptor =>
    refine ⟨fun node => ⟨?_, ?_⟩, fun _ => ⟨nofun, nofun⟩, fun node => ⟨?_, ?_⟩⟩
    · intro h
      cases h
      exact .scalar descriptor
    · intro h
      cases h
      rfl
    · intro h
      cases h
      exact .scalar descriptor
    · intro h
      cases h
      rfl
  | array items ih =>
    exact ⟨fun _ => ofJson?_array ih, fun _ => operationOfJson?_array ih,
      fun _ => ⟨nofun, nofun⟩⟩
  | object members ih =>
    exact ⟨fun _ => ofJson?_object ih, fun _ => operationOfJson?_eq_some ih,
      fun _ => bodyOfJson?_object ih⟩

end Node

end WireQuery
