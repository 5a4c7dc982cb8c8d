import Mathlib.Data.String.Basic

/-!
# The order of texts

Texts are compared by their code points. This is the order of their UTF-8 bytes: where two texts
differ first, the greater character has the greater bytes.
-/

namespace WireQuery
set_option autoImplicit false

/-- The bytes of a text in UTF-8. -/
def utf8Bytes (s : String) : List UInt8 := s.toUTF8.data.toList

theorem utf8Bytes_eq_flatMap (s : String) :
    utf8Bytes s = s.toList.flatMap String.utf8EncodeChar := by
  have hbytes : s.toUTF8 = (s.toList.flatMap String.utf8EncodeChar).toByteArray :=
    String.utf8Encode_toList.symm
  rw [utf8Bytes, hbytes, List.data_toByteArray]

theorem byte_lt {a b : Nat} (h : a < b) (hb : b < 256) (xs ys : List UInt8) :
    UInt8.ofNat a :: xs < UInt8.ofNat b :: ys := by
  apply List.cons_lt_cons_iff.mpr
  left
  rw [UInt8.lt_iff_toNat_lt, UInt8.toNat_ofNat', UInt8.toNat_ofNat']
  omega

theorem byte_le {a b : Nat} (h : a ≤ b) (hb : b < 256) {xs ys : List UInt8}
    (rest : a = b → xs < ys) : UInt8.ofNat a :: xs < UInt8.ofNat b :: ys := by
  rcases Nat.lt_or_eq_of_le h with hlt | rfl
  · exact byte_lt hlt hb xs ys
  · exact List.cons_lt_cons_self.mpr (rest rfl)

/-- The bytes of a character come before those of a greater one, whatever follows either. -/
theorem utf8EncodeChar_append_lt {c d : Char} (h : c < d) (xs ys : List UInt8) :
    String.utf8EncodeChar c ++ xs < String.utf8EncodeChar d ++ ys := by
  have hlt : c.val.toNat < d.val.toNat := h
  have hd : d.val.toNat < 0x110000 := by
    have hvalid := d.valid
    simp only [UInt32.isValidChar, Nat.isValidChar] at hvalid
    omega
  simp only [String.utf8EncodeChar]
  -- More bytes begin with a greater one. As many bytes are digits to base 64, highest first.
  split
  · split
    · exact byte_lt hlt (by omega) _ _
    · split
      · exact byte_lt (by omega) (by omega) _ _
      · split <;> exact byte_lt (by omega) (by omega) _ _
  · have hone : ¬ d.val.toNat ≤ 127 := by omega
    rw [if_neg hone]
    split
    · split
      · refine byte_le (by omega) (by omega) fun _ => ?_
        exact byte_lt (by omega) (by omega) _ _
      · split <;> exact byte_lt (by omega) (by omega) _ _
    · have htwo : ¬ d.val.toNat ≤ 2047 := by omega
      rw [if_neg htwo]
      split
      · split
        · refine byte_le (by omega) (by omega) fun _ => ?_
          refine byte_le (by omega) (by omega) fun _ => ?_
          exact byte_lt (by omega) (by omega) _ _
        · exact byte_lt (by omega) (by omega) _ _
      · have hthree : ¬ d.val.toNat ≤ 65535 := by omega
        rw [if_neg hthree]
        refine byte_le (by omega) (by omega) fun _ => ?_
        refine byte_le (by omega) (by omega) fun _ => ?_
        refine byte_le (by omega) (by omega) fun _ => ?_
        exact byte_lt (by omega) (by omega) _ _

theorem flatMap_utf8EncodeChar_lt {cs ds : List Char} (h : List.Lex (· < ·) cs ds) :
    cs.flatMap String.utf8EncodeChar < ds.flatMap String.utf8EncodeChar := by
  induction h with
  | @nil d ds =>
    obtain ⟨b, bs, hbytes⟩ := List.exists_cons_of_ne_nil (String.utf8EncodeChar_ne_nil (c := d))
    rw [List.flatMap_nil, List.flatMap_cons, hbytes]
    exact List.nil_lt_cons b _
  | rel hcd => exact utf8EncodeChar_append_lt hcd _ _
  | cons _ ih => exact List.append_left_lt ih

theorem utf8Bytes_lt_of_lt {s t : String} (h : s < t) : utf8Bytes s < utf8Bytes t := by
  rw [utf8Bytes_eq_flatMap, utf8Bytes_eq_flatMap]
  exact flatMap_utf8EncodeChar_lt (List.lex_lt.mpr (String.lt_iff_toList_lt.mp h))

/-- Texts are in the order of their bytes. -/
theorem utf8Bytes_lt_iff {s t : String} : utf8Bytes s < utf8Bytes t ↔ s < t := by
  constructor
  · intro hbytes
    rcases lt_trichotomy s t with h | rfl | h
    · exact h
    · exact absurd hbytes (List.lt_irrefl _)
    · exact absurd (List.lt_trans hbytes (utf8Bytes_lt_of_lt h)) (List.lt_irrefl _)
  · exact utf8Bytes_lt_of_lt

end WireQuery
