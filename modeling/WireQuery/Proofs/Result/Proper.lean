import WireQuery.Compile.Basic
import WireQuery.Proofs.Compile.Met
import WireQuery.Proofs.WireType.RoundTrip

/-!
# Proper shapes

A shape is proper if the keys of each level are distinct names, and its scalars have types that a
descriptor can spell and the kinds that the scalar table gives these. What a specification compiles
to is proper.
-/

namespace WireQuery
set_option autoImplicit false

namespace WireType

theorem canonical_nullable {type : WireType} (h : type.Canonical) : type.nullable.Canonical := by
  cases type with
  | named name => trivial
  | list element => exact h
  | nonNull inner => exact h.2

theorem Expressible.nullable {type : WireType} (h : type.Expressible) :
    type.nullable.Expressible where
  name := by simpa using h.name
  canonical := canonical_nullable h.canonical
  depth := by
    have hdepth := h.depth
    cases type <;> exact hdepth

end WireType

mutual

def Content.Proper (table : ScalarTable) : Content → Prop
  | .leaf (.typed type kind) => type.Expressible ∧ kind = table.kindOf type.baseName
  | .leaf (.untyped _) => True
  | .nested slots => (slots.map Slot.key).Nodup ∧ slotsProper table slots

def slotsProper (table : ScalarTable) : List (Slot Content) → Prop
  | [] => True
  | slot :: rest =>
    (Name.isValid slot.key = true ∧ slot.content.Proper table) ∧ slotsProper table rest

end

theorem slotsProper_iff {table : ScalarTable} {slots : List (Slot Content)} :
    slotsProper table slots ↔
      ∀ slot ∈ slots, Name.isValid slot.key = true ∧ slot.content.Proper table := by
  induction slots with
  | nil => simp [slotsProper]
  | cons slot rest ih => rw [slotsProper, List.forall_mem_cons, ih]

namespace Node

open Requirement

theorem proper_ofDescriptor (table : ScalarTable) (descriptor : String) :
    (Content.leaf (.ofDescriptor table descriptor)).Proper table := by
  unfold Leaf.ofDescriptor
  cases hread : WireType.read descriptor with
  | ok type => exact ⟨(WireType.read_eq_ok.mp hread).2, rfl⟩
  | error malformed => trivial

mutual

theorem proper_content (table : ScalarTable) (path : List String) (key : String) :
    ∀ node : Node, node.WellKeyed → Met (ofNode path key node) → (node.content table).Proper table
  | scalar call descriptor, _, _ => proper_ofDescriptor table descriptor
  | group call children, ⟨distinct, wellKeyed⟩, met => by
    refine ⟨?_, slotsProper_shape table path children wellKeyed met.right.tail⟩
    simpa using distinct

theorem slotsProper_shape (table : ScalarTable) (path : List String) :
    ∀ children : List (String × Node), ChildrenWellKeyed children →
      Met (ofChildren path children) → slotsProper table (shape table children)
  | [], _, _ => trivial
  | (key, node) :: rest, ⟨wellKeyed, restWellKeyed⟩, met =>
    ⟨⟨met.names _ _ (List.mem_append_left _ List.mem_cons_self),
      proper_content table (path ++ [key]) key node wellKeyed met.left.tail⟩,
      slotsProper_shape table path rest restWellKeyed met.right⟩

end

end Node

theorem Group.proper_of_compile {root : Group}
    {operationName : Option String} {table : ScalarTable} {query : Query}
    (h : root.compile operationName table = .ok query) :
    (Content.nested query.shape).Proper table := by
  obtain ⟨distinct, childrenWellKeyed⟩ := root.wellKeyed
  have met := met_of_compile h
  obtain ⟨uses, definitions, -, -, rfl⟩ := exists_of_compile h
  refine ⟨?_, Node.slotsProper_shape table [] root.children childrenWellKeyed met.right.tail⟩
  simpa using distinct

end WireQuery
