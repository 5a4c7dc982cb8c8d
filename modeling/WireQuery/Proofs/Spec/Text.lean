import WireQuery.Proofs.Outcome
import WireQuery.Proofs.Spec.Reading

/-!
# Specifications are read exactly

A text of the documented grammar is read as documented. The reader takes the grammar with arrays,
although nothing documents them.
-/

namespace WireQuery
set_option autoImplicit false

open Outcome

theorem Json.readMembers_eq_ok {α : Type} {size steps : Nat} {readItem : Reader α} {first : Bool}
    {cs rest : List Char} {members : List (String × α)} :
    readMembers size readItem (steps + 1) first cs = .ok (members, rest) ↔
      (nextMember first cs = .ok (.closed rest) ∧ members = []) ∨
      ∃ r₀ name r₁ r₂ item r₃ others, nextMember first cs = .ok (.more r₀) ∧
        readString size r₀ = .ok (name, r₁) ∧ readColon r₁ = .ok r₂ ∧
        readItem r₂ = .ok (item, r₃) ∧
        readMembers size readItem steps false r₃ = .ok (others, rest) ∧
        members = (name, item) :: others := by
  rw [readMembers]
  constructor
  · intro h
    obtain ⟨next, hnext, h⟩ := bind_eq_ok.mp h
    cases next with
    | closed r₀ =>
      cases h
      exact Or.inl ⟨hnext, rfl⟩
    | more r₀ =>
      obtain ⟨⟨name, r₁⟩, hname, h⟩ := bind_eq_ok.mp h
      obtain ⟨r₂, hcolon, h⟩ := bind_eq_ok.mp h
      obtain ⟨⟨item, r₃⟩, hitem, h⟩ := bind_eq_ok.mp h
      obtain ⟨⟨others, r₄⟩, hothers, h⟩ := bind_eq_ok.mp h
      cases h
      exact Or.inr ⟨r₀, name, r₁, r₂, item, r₃, others, hnext, hname, hcolon, hitem, hothers, rfl⟩
  · rintro (⟨hnext, rfl⟩ |
      ⟨r₀, name, r₁, r₂, item, r₃, others, hnext, hname, hcolon, hitem, hothers, rfl⟩)
    · refine bind_eq_ok.mpr ⟨_, hnext, rfl⟩
    · refine bind_eq_ok.mpr ⟨_, hnext, bind_eq_ok.mpr ⟨_, hname, bind_eq_ok.mpr ⟨_, hcolon, ?_⟩⟩⟩
      exact bind_eq_ok.mpr ⟨_, hitem, bind_eq_ok.mpr ⟨_, hothers, rfl⟩⟩

namespace Node

theorem read_eq_ok {size : Nat} {cs rest : List Char} {node : Node} :
    Node.read size cs = .ok (node, rest) ↔
      ∃ j, Json.readValue size (Json.maxNesting - 1) cs = .ok (j, rest) ∧
        ofJson? j = some node := by
  unfold Node.read
  rw [bind_eq_ok]
  constructor
  · rintro ⟨⟨j, rest'⟩, hvalue, h⟩
    dsimp only at h
    split at h
    · next node' hnode =>
      cases h
      exact ⟨j, hvalue, hnode⟩
    · cases h
  · rintro ⟨j, hvalue, hnode⟩
    refine ⟨(j, rest), hvalue, ?_⟩
    dsimp only
    rw [hnode]
    rfl

theorem childrenOfMembers?_cons {name : String} {j : Json} {members : List (String × Json)}
    {children : List (String × Node)} :
    childrenOfMembers? ((name, j) :: members) = some children ↔ ∃ node others,
      ofJson? j = some node ∧ childrenOfMembers? members = some others ∧
        children = (name, node) :: others := by
  rw [childrenOfMembers?]
  cases ofJson? j <;> cases childrenOfMembers? members <;> simp [eq_comm]

/-- Nodes are read where values are, each as what its value denotes. -/
theorem readMembers_eq_ok {size steps : Nat} {first : Bool} {cs rest : List Char}
    {children : List (String × Node)} :
    Json.readMembers size (Node.read size) steps first cs = .ok (children, rest) ↔
      ∃ members, Json.readMembers size (Json.readValue size (Json.maxNesting - 1)) steps first cs =
        .ok (members, rest) ∧ childrenOfMembers? members = some children := by
  induction steps generalizing first cs rest children with
  | zero => exact ⟨nofun, nofun⟩
  | succ steps ih =>
    simp only [Json.readMembers_eq_ok]
    constructor
    · rintro (⟨hnext, rfl⟩ |
        ⟨r₀, name, r₁, r₂, node, r₃, others, hnext, hname, hcolon, hnode, hothers, rfl⟩)
      · exact ⟨[], Or.inl ⟨hnext, rfl⟩, rfl⟩
      · obtain ⟨j, hvalue, hj⟩ := read_eq_ok.mp hnode
        obtain ⟨members, hmembers, hchildren⟩ := ih.mp hothers
        exact ⟨(name, j) :: members,
          Or.inr ⟨r₀, name, r₁, r₂, j, r₃, members, hnext, hname, hcolon, hvalue, hmembers, rfl⟩,
          childrenOfMembers?_cons.mpr ⟨node, others, hj, hchildren, rfl⟩⟩
    · rintro ⟨members, ⟨hnext, rfl⟩ |
        ⟨r₀, name, r₁, r₂, j, r₃, rest', hnext, hname, hcolon, hvalue, hmembers, rfl⟩, hchildren⟩
      · cases hchildren
        exact Or.inl ⟨hnext, rfl⟩
      · obtain ⟨node, others, hj, hothers, rfl⟩ := childrenOfMembers?_cons.mp hchildren
        exact Or.inr ⟨r₀, name, r₁, r₂, node, r₃, others, hnext, hname, hcolon,
          read_eq_ok.mpr ⟨j, hvalue, hj⟩, ih.mpr ⟨rest', hmembers, hothers⟩, rfl⟩

end Node

namespace Json

theorem wrongForm_ne_ok {α : Type} {size : Nat} {expected : String} {cs : List Char} {a : α} :
    wrongForm size expected cs ≠ .ok a := by
  intro h
  obtain ⟨_, -, h⟩ := bind_eq_ok.mp h
  cases h

theorem readMap_eq_ok {α : Type} {size : Nat} {readItem : Reader α} {cs rest : List Char}
    {members : List (String × α)} :
    readMap size readItem cs = .ok (members, rest) ↔ ∃ r, skipBlanks cs = '\x7b' :: r ∧
      readMembers size readItem size true r = .ok (members, rest) := by
  unfold readMap
  constructor
  · intro h
    split at h
    · next r hr => exact ⟨r, hr, h⟩
    · exact (wrongForm_ne_ok h).elim
  · rintro ⟨r, hr, h⟩
    rw [hr]
    exact h

theorem readValue_eq_ok_object {size nesting : Nat} {cs rest : List Char}
    {members : List (String × Json)} :
    readValue size (nesting + 1) cs = .ok (.object members, rest) ↔
      ∃ r, skipBlanks cs = '\x7b' :: r ∧
        readMembers size (readValue size nesting) size true r = .ok (members, rest) := by
  rw [readValue, readValueWith]
  constructor
  · intro h
    cases hcs : skipBlanks cs with
    | nil =>
      rw [hcs] at h
      cases h
    | cons c r =>
      rw [hcs] at h
      dsimp only at h
      -- Every other way to begin a value ends in another constructor or in an error.
      repeat' split at h
      all_goals try obtain ⟨x, hx, h⟩ := bind_eq_ok.mp h
      all_goals cases h
      next hbrace => exact ⟨r, by rw [hbrace], hx⟩
  · rintro ⟨r, hr, h⟩
    rw [hr]
    dsimp only
    rw [if_neg (by decide), if_pos rfl]
    exact bind_eq_ok.mpr ⟨_, h, rfl⟩

theorem readText_eq_ok {α : Type} {reader : Nat → Reader α} {text : String} {value : α} :
    readText reader text = .ok value ↔ ∃ rest,
      reader (text.toList.length + 1) text.toList = .ok (value, rest) ∧
        (skipBlanks rest).isEmpty := by
  unfold readText
  rw [bind_eq_ok]
  constructor
  · rintro ⟨⟨value', rest⟩, hvalue, h⟩
    dsimp only at h
    split at h
    · next hempty =>
      cases h
      exact ⟨rest, hvalue, hempty⟩
    · cases h
  · rintro ⟨rest, hvalue, hempty⟩
    refine ⟨(value, rest), hvalue, ?_⟩
    dsimp only
    rw [if_pos hempty]
    rfl

end Json

namespace Group

/-- A text whose root is an object, each of whose members is a node. -/
def TextForm (arrays : Bool) (text : String) : Prop :=
  ∃ members, Json.parse text = .ok (.object members) ∧ ∀ member ∈ members, Node.Form arrays member.2

/-- What the text denotes: a group of what the members of its root denote. -/
def SpelledBy (arrays : Bool) (text : String) (g : Group) : Prop :=
  ∃ members children, Json.parse text = .ok (.object members) ∧
    Node.ChildrenDenote arrays members children ∧ Keyed.Resolves children g.children

variable {arrays : Bool} {text : String} {g : Group}

theorem exists_spelledBy : (∃ g, SpelledBy arrays text g) ↔ TextForm arrays text := by
  have hsettled : ∀ members : List (String × Json), ∀ member ∈ members,
      Node.Settled arrays member.2 := fun _ member _ => Node.settled arrays member.2
  constructor
  · rintro ⟨g, members, children, hparse, hchildren, -⟩
    exact ⟨members, hparse, (Node.exists_childrenDenote (hsettled members)).mp ⟨_, hchildren⟩⟩
  · rintro ⟨members, hparse, heach⟩
    obtain ⟨children, hchildren⟩ := (Node.exists_childrenDenote (hsettled members)).mpr heach
    exact ⟨.ofList children, members, children, hparse, hchildren,
      (resolves_iff hchildren.wellKeyed).mpr rfl⟩

theorem SpelledBy.withArrays (h : SpelledBy false text g) : SpelledBy true text g := by
  obtain ⟨members, children, hparse, hchildren, hresolved⟩ := h
  exact ⟨members, children, hparse, hchildren.withArrays, hresolved⟩

theorem readText_eq_ok {children : List (String × Node)} :
    Json.readText (fun size => Json.readMap size (Node.read size)) text = .ok children ↔
      ∃ members, Json.parse text = .ok (.object members) ∧
        Node.childrenOfMembers? members = some children := by
  simp only [Json.parse, Json.readText_eq_ok, Json.readMap_eq_ok, Node.readMembers_eq_ok]
  have hnesting : Json.maxNesting = Json.maxNesting - 1 + 1 := rfl
  rw [hnesting]
  simp only [Json.readValue_eq_ok_object]
  constructor
  · rintro ⟨rest, ⟨r, hr, members, hmembers, hchildren⟩, hend⟩
    exact ⟨members, ⟨rest, ⟨r, hr, hmembers⟩, hend⟩, hchildren⟩
  · rintro ⟨members, ⟨rest, ⟨r, hr, hmembers⟩, hend⟩, hchildren⟩
    exact ⟨rest, ⟨r, hr, members, hmembers, hchildren⟩, hend⟩

theorem read_eq_ok : Group.read text = .ok g ↔ SpelledBy true text g := by
  unfold Group.read
  rw [Outcome.bind_eq_ok]
  constructor
  · rintro ⟨children, hread, heq⟩
    cases heq
    obtain ⟨members, hparse, hchildren⟩ := readText_eq_ok.mp hread
    have hdenote :=
      (Node.childrenOfMembers?_eq_some fun member _ => Node.exact member.2).mp hchildren
    exact ⟨members, children, hparse, hdenote, (resolves_iff hdenote.wellKeyed).mpr rfl⟩
  · rintro ⟨members, children, hparse, hdenote, hresolved⟩
    have hchildren :=
      (Node.childrenOfMembers?_eq_some fun member _ => Node.exact member.2).mpr hdenote
    refine ⟨children, readText_eq_ok.mpr ⟨members, hparse, hchildren⟩, ?_⟩
    rw [(resolves_iff hdenote.wellKeyed).mp hresolved]
    rfl

/-- A text is accepted if and only if it is in the grammar with arrays, and is read as what it
denotes there. So every text of the documented grammar is accepted and read as documented. -/
theorem read_exact (text : String) :
    ((∃ g, Group.read text = .ok g) ↔ TextForm true text) ∧
    (∀ g, Group.read text = .ok g ↔ SpelledBy true text g) ∧
    (TextForm false text → ∃ g, SpelledBy false text g) ∧
    (∀ g, SpelledBy false text g → Group.read text = .ok g) := by
  refine ⟨?_, fun g => read_eq_ok, exists_spelledBy.mpr, fun g hg => ?_⟩
  · rw [← exists_spelledBy]
    exact exists_congr fun g => read_eq_ok
  · exact read_eq_ok.mpr hg.withArrays

/-- The documented grammar is not all that is accepted: an array can stand for an operation. -/
theorem read_undocumented_array :
    ¬((∃ g, Group.read "\x7b\"a\": [\x7b\"body\": \"Int\"\x7d]\x7d" = .ok g) ↔
      TextForm false "\x7b\"a\": [\x7b\"body\": \"Int\"\x7d]\x7d") := by
  have hread : Group.read "\x7b\"a\": [\x7b\"body\": \"Int\"\x7d]\x7d" =
      .ok (.ofList [("a", .scalar (some .plain) "Int")]) := by
    simp only [Group.read, Json.readText, String.reduceToList]
    rfl
  have hparse : Json.parse "\x7b\"a\": [\x7b\"body\": \"Int\"\x7d]\x7d" =
      .ok (.object [("a", .array [.object [("body", .string "Int")]])]) := by
    simp only [Json.parse, Json.readText, String.reduceToList]
    rfl
  intro h
  obtain ⟨members, heq, hforms⟩ := h.mp ⟨_, hread⟩
  cases hparse.symm.trans heq
  cases hforms _ (List.mem_singleton_self _) with
  | unmarked allowed => cases allowed

end Group

end WireQuery
