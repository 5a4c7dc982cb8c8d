import WireQuery.Proofs.Result.Decoding
import WireQuery.Proofs.TypeScript.Meaning
import WireQuery.Proofs.Typings.Reading
import WireQuery.Typings.Interfaces

/-!
# Scalars inhabit their types

A value that fits a wire type inhabits the TypeScript type that is declared for it.
-/

namespace WireQuery.Typings
set_option autoImplicit false

open TypeScript (Inhabits Objectless)

/-- The items of a list have the type of a value of their own. -/
@[simp] theorem ofPresent_list (kind : ScalarKind) (element : WireType) :
    ofPresent kind (.list element) = .array (ofType kind element) := by
  cases element <;> rfl

theorem plain_ofPresent (kind : ScalarKind) (t : WireType) : (ofPresent kind t).Plain := by
  induction t with
  | named name => cases kind <;> constructor
  | list element ih =>
    rw [ofPresent_list, ofType]
    split
    · exact .array ih
    · exact .arrayOrNull ih
  | nonNull inner ih => exact ih

theorem written_ofType (kind : ScalarKind) (t : WireType) : (ofType kind t).Written := by
  unfold ofType
  split
  · exact .plain (plain_ofPresent kind t)
  · exact .orNull (plain_ofPresent kind t)

variable {declarations : List TypeScript.Declaration} {kind : ScalarKind} {t : WireType} {j : Json}

theorem inhabits_ofKind (accepted : kind.accepts j = true) (name : String) :
    Inhabits declarations (ofKind kind).denoted ((WireType.named name).projection kind j) := by
  unfold ScalarKind.accepts at accepted
  split at accepted
  · exact .string _
  · exact .number _
  · exact .number _
  · exact .boolean _
  · exact .unknown _
  · cases accepted

@[simp] theorem projection_null (kind : ScalarKind) (t : WireType) :
    t.projection kind .null = .null := by
  induction t with
  | named name => rfl
  | list element => rfl
  | nonNull inner ih => exact ih

theorem inhabits_ofType_of_present (fits : t.Fits kind j)
    (h : j ≠ .null → Inhabits declarations (ofPresent kind t).denoted (t.projection kind j)) :
    Inhabits declarations (ofType kind t).denoted (t.projection kind j) := by
  unfold ofType
  split
  · next hnonNull =>
    cases t with
    | nonNull inner => exact h fits.1
    | named name => cases hnonNull
    | list element => cases hnonNull
  · by_cases hnull : j = .null
    · subst hnull
      rw [projection_null]
      exact .right .null
    · exact .left (h hnull)

theorem inhabits_ofPresent (fits : t.Fits kind j) (present : j ≠ .null) :
    Inhabits declarations (ofPresent kind t).denoted (t.projection kind j) := by
  induction t generalizing j with
  | named name => exact inhabits_ofKind (fits.resolve_left present) name
  | list element ih =>
    obtain ⟨items, rfl, hitems⟩ := fits.resolve_left present
    rw [ofPresent_list, WireType.projection]
    apply Inhabits.array
    intro item hitem
    obtain ⟨item, hmem, rfl⟩ := List.mem_map.mp hitem
    have hfits := hitems item hmem
    exact inhabits_ofType_of_present hfits fun hpresent => ih hfits hpresent
  | nonNull inner ih => exact ih fits.2 present

theorem inhabits_ofType (fits : t.Fits kind j) :
    Inhabits declarations (ofType kind t).denoted (t.projection kind j) :=
  inhabits_ofType_of_present fits fun present => inhabits_ofPresent fits present

theorem objectless_of_mirrorsScalar {v : Value} (h : Value.MirrorsScalar j v) : Objectless v := by
  refine @Value.MirrorsScalar.rec (fun _ v _ => Objectless v)
    (fun _ values _ => ∀ v ∈ values, Objectless v) .null (fun b => .bool b) (fun s => .text s)
    (fun n => .integer n) (fun _ => .number _) ?_ (fun _ => .raw _) nofun ?_ j v h
  · intro items values _ each
    exact .list each
  · intro item v items values _ _ hv hvalues
    exact List.forall_mem_cons.mpr ⟨hv, hvalues⟩

end WireQuery.Typings
