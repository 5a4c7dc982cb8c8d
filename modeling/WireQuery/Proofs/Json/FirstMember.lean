import WireQuery.Proofs.Json.RoundTrip

/-!
# The first member of a text

What an object has as its first member can be read off the front of its text, whatever the members
behind it are. So numbers and deep nesting there do no harm.
-/

namespace WireQuery.Json
set_option autoImplicit false

/-- The first member of the object that a text begins with. The rest of the text is not read. -/
def firstMember (text : String) : Except Error (String × Json) := do
  let cs := text.toList
  let size := cs.length + 1
  match skipBlanks cs with
  | '\x7b' :: inside =>
    match ← nextMember true inside with
    | .closed _ => refuse .endInObject
    | .more rest =>
      let (name, rest) ← readString size rest
      let rest ← readColon rest
      let (value, _) ← readValue size maxNesting rest
      return (name, value)
  | _ => refuse .expectedValue

theorem firstMember_write (name s : String) (members : List (String × Json)) (style : TextStyle)
    (tail : String) :
    firstMember ((object ((name, .string s) :: members)).write style ++ tail) =
      .ok (name, .string s) := by
  have hwrite : (object ((name, .string s) :: members)).write style =
      (object ((name, .string s) :: members)).textAt style 0 := by
    cases style <;> rfl
  obtain ⟨inside, hlisted, htext⟩ : ∃ inside,
      Listed '\x7d' (fun text member => text = (memberText style 1 member).toList) true inside
        ((name, .string s) :: members) ∧
      ((object ((name, .string s) :: members)).textAt style 0).toList = '\x7b' :: inside := by
    rw [textAt_object]
    exact exists_listed_enclosed _ style "\x7b" '\x7d' 0 _ fun _ _ => rfl
  rw [firstMember, hwrite, String.toList_append, htext]
  generalize hsize : ('\x7b' :: inside ++ tail.toList).length + 1 = size
  cases hlisted with
  | @entry _ gap text more _ _ blank spelled others =>
    obtain ⟨value, hvalue, htakes⟩ : SpellsMember size (readValue size maxNesting)
        (memberText style 1 (name, .string s)).toList (name, .string s) := by
      apply spellsMember_memberText
      rw [textAt_string]
      exact takes_string size maxNesting s
    dsimp only at hvalue
    have hname := length_lt_quote name
    rw [spelled, hvalue] at hsize
    simp only [List.length_cons, List.length_append] at hsize
    rw [List.cons_append, spelled, hvalue, member_opened, skipBlanks_cons rfl]
    refine Outcome.bind_eq_ok.mpr ⟨_, nextMember_more true blank _, ?_⟩
    refine Outcome.bind_eq_ok.mpr ⟨_, readString_flatMap_escape (by omega) _, ?_⟩
    refine Outcome.bind_eq_ok.mpr ⟨value ++ (more ++ tail.toList), rfl, ?_⟩
    exact Outcome.bind_eq_ok.mpr ⟨_, htakes (by omega) _, rfl⟩

end WireQuery.Json
