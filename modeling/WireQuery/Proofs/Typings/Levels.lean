import WireQuery.Proofs.Keyed
import WireQuery.Proofs.Typings.Scalars

/-!
# Objects and levels inhabit their types

An object with the members of an interface inhabits it. A value of a nested level is such an
object, null, or a list of values of the level, which is what the alias for nested levels admits.
-/

namespace WireQuery.Typings
set_option autoImplicit false

open TypeScript (Inhabits Objectless Exact Resolves)

/-- A value that inhabits a type as JSON and has exactly the members of the interfaces in it. -/
structure Typed (declarations : List TypeScript.Declaration) (ty : TypeScript.Ty) (v : Value) :
    Prop where
  inhabits : Inhabits declarations ty v.toJson
  exact : Exact declarations ty v

/-- The fields of an object, one for each member, in order. -/
def FieldsTyped (declarations : List TypeScript.Declaration) (members : List Member)
    (fields : List (String × Value)) : Prop :=
  List.Forall₂ (fun member field => field.1 = member.key ∧
    Typed declarations member.ty.denoted field.2) members fields

variable {declarations : List TypeScript.Declaration}

@[simp] theorem fieldsToJson_eq_map (fields : List (String × Value)) :
    Value.fieldsToJson fields = fields.map fun field => (field.1, field.2.toJson) := by
  induction fields with
  | nil => rfl
  | cons field rest ih => rw [Value.fieldsToJson, List.map_cons, ih]

@[simp] theorem itemsToJson_eq_map (values : List Value) :
    Value.itemsToJson values = values.map Value.toJson := by
  induction values with
  | nil => rfl
  | cons v rest ih => rw [Value.itemsToJson, List.map_cons, ih]

namespace FieldsTyped

variable {members : List Member} {fields : List (String × Value)}

theorem keys (h : FieldsTyped declarations members fields) :
    fields.map Prod.fst = members.map Member.key := by
  induction h with
  | nil => rfl
  | cons first _ ih => rw [List.map_cons, List.map_cons, first.1, ih]

theorem exists_field (h : FieldsTyped declarations members fields) {member : Member}
    (hmember : member ∈ members) : ∃ field ∈ fields, field.1 = member.key ∧
      Typed declarations member.ty.denoted field.2 := by
  induction h with
  | nil => cases hmember
  | cons first _ ih =>
    rcases List.mem_cons.mp hmember with rfl | hmember
    · exact ⟨_, List.mem_cons_self, first⟩
    · obtain ⟨field, hfield, hboth⟩ := ih hmember
      exact ⟨field, List.mem_cons_of_mem _ hfield, hboth⟩

theorem exists_lookup (h : FieldsTyped declarations members fields)
    (distinct : (members.map Member.key).Nodup) {member : Member} (hmember : member ∈ members) :
    ∃ v, (Value.fieldsToJson fields).lookup member.key = some v.toJson ∧
      Typed declarations member.ty.denoted v := by
  obtain ⟨field, hfield, hkey, htyped⟩ := h.exists_field hmember
  refine ⟨field.2, ?_, htyped⟩
  have hkeys : Keyed.DistinctKeys (Value.fieldsToJson fields) := by
    rw [Keyed.DistinctKeys, Keyed.keys, fieldsToJson_eq_map, List.map_map]
    change (fields.map Prod.fst).Nodup
    rw [h.keys]
    exact distinct
  have hentry : (field.1, field.2.toJson) ∈ Value.fieldsToJson fields := by
    rw [fieldsToJson_eq_map]
    exact List.mem_map_of_mem hfield
  rw [← hkey]
  exact Keyed.lookup_eq_some_of_mem hkeys hentry

theorem typed (h : FieldsTyped declarations members fields)
    (distinct : (members.map Member.key).Nodup) {name : String}
    (resolved : Resolves declarations name (.interface name (members.map Member.denoted))) :
    Typed declarations (.reference name) (.object fields) where
  inhabits := by
    apply Inhabits.interface resolved
    · intro member hmember _
      obtain ⟨written, hwritten, rfl⟩ := List.mem_map.mp hmember
      obtain ⟨v, hv, -⟩ := h.exists_lookup distinct hwritten
      exact ⟨_, hv⟩
    · intro member hmember j hj
      obtain ⟨written, hwritten, rfl⟩ := List.mem_map.mp hmember
      obtain ⟨v, hv, htyped⟩ := h.exists_lookup distinct hwritten
      cases hv.symm.trans hj
      exact htyped.inhabits
  exact := by
    apply Exact.interface resolved
    · rw [h.keys, List.map_map]
      rfl
    · have hzip := (List.forall₂_map_left_iff (f := Member.denoted)
        (R := fun (member : TypeScript.Member) field => Exact declarations member.ty field.2)).mpr
        (h.imp fun _ _ hboth => hboth.2.exact)
      rintro ⟨member, field⟩ hentry
      exact (List.forall₂_iff_zip.mp hzip).2 hentry

end FieldsTyped

section
variable {aliasName name : String} {v : Value}
  (resolved : Resolves declarations aliasName (Declaration.nestedAlias aliasName).denoted)
include resolved

theorem typed_nested_null : Typed declarations (Ty.nested aliasName name).denoted .null :=
  ⟨.applied resolved (.right (.right .null)), .objectless .null⟩

theorem typed_nested_object (h : Typed declarations (.reference name) v) :
    Typed declarations (Ty.nested aliasName name).denoted v :=
  ⟨.applied resolved (.left h.inhabits), .applied resolved (.left h.exact)⟩

theorem typed_nested_list {values : List Value}
    (h : ∀ v ∈ values, Typed declarations (Ty.nested aliasName name).denoted v) :
    Typed declarations (Ty.nested aliasName name).denoted (.list values) := by
  constructor
  · apply Inhabits.applied resolved
    apply Inhabits.right
    apply Inhabits.left
    rw [Value.toJson, itemsToJson_eq_map]
    apply Inhabits.array
    intro item hitem
    obtain ⟨v, hv, rfl⟩ := List.mem_map.mp hitem
    exact (h v hv).inhabits
  · apply Exact.applied resolved
    apply Exact.right
    apply Exact.left
    apply Exact.array
    intro v hv
    exact (h v hv).exact

theorem typed_of_mirrorsLevel {gives : List (String × Json) → List (String × Value) → Prop}
    (objects : ∀ members fields, gives members fields →
      Typed declarations (.reference name) (.object fields)) {j : Json}
    (h : Value.MirrorsLevel gives j v) :
    Typed declarations (Ty.nested aliasName name).denoted v := by
  -- The items of a list are related by a predicate nested in this one, hence the two motives.
  refine @Value.MirrorsLevel.rec gives
    (fun _ v _ => Typed declarations (Ty.nested aliasName name).denoted v)
    (fun _ values _ => ∀ v ∈ values, Typed declarations (Ty.nested aliasName name).denoted v)
    (typed_nested_null resolved) ?_ ?_ nofun ?_ j v h
  · intro items values _ each
    exact typed_nested_list resolved each
  · intro members fields hgives
    exact typed_nested_object resolved (objects members fields hgives)
  · intro item v items values _ _ hv hvalues
    exact List.forall_mem_cons.mpr ⟨hv, hvalues⟩

end

end WireQuery.Typings
