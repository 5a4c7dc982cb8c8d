import WireQuery.Proofs.Compile.Place
import WireQuery.Proofs.Result.Fits
import WireQuery.Proofs.Service.Basic
import WireQuery.Result.Decoder

/-!
# Defects of responses

What a shape expects somewhere in a response, which parts a value has there, and how it fails what
is expected of it. Nothing here decodes a value.

The parts of a value are numbered: those of an object by their slots, those of an array by their
items. A defect has the numbers that lead to it as its place, so the order of places is depth
first, in the order of the specification's keys and of the items.
-/

namespace WireQuery
set_option autoImplicit false

namespace WireType

/-- The type of the items, if the type is one of lists. -/
def element? : WireType → Option WireType
  | named _ => none
  | list element => some element
  | nonNull inner => inner.element?

/-- Whether a value that is not null has the outermost form of the type. What is inside a list
plays no part. -/
def Admits (kind : ScalarKind) : WireType → Json → Prop
  | named _, j => kind.accepts j = true
  | list _, j => ∃ items, j = .array items
  | nonNull inner, j => inner.Admits kind j

end WireType

inductive Expected where
  | level (slots : Shape)
  | scalar (type : WireType) (kind : ScalarKind)
  | anything

def Content.expected : Content → Expected
  | .leaf (.typed type kind) => .scalar type kind
  | .leaf (.untyped _) => .anything
  | .nested slots => .level slots

/-- A value in a response, with what is expected of it. -/
structure Point where
  expected : Expected
  value : Json

namespace Point

/-- The `i`-th part of a point is reached by a step. -/
inductive Part : Point → Nat → PathStep → Point → Prop where
  | member {slots : Shape} {members : List (String × Json)} {i : Nat} {slot : Slot Content}
      {j : Json} (asked : slots[i]? = some slot)
      (found : members.lookup slot.responseKey = some j) :
      Part ⟨.level slots, .object members⟩ i (.key slot.key) ⟨slot.content.expected, j⟩
  | item {slots : Shape} {items : List Json} {i : Nat} {j : Json} (here : items[i]? = some j) :
      Part ⟨.level slots, .array items⟩ i (.index i) ⟨.level slots, j⟩
  | element {type element : WireType} {kind : ScalarKind} {items : List Json} {i : Nat} {j : Json}
      (lists : type.element? = some element) (here : items[i]? = some j) :
      Part ⟨.scalar type kind, .array items⟩ i (.index i) ⟨.scalar element kind, j⟩

/-- The part that a step leads to. A key is looked up under the response key of its slot. -/
def step? : Point → PathStep → Option Point
  | ⟨.level slots, .object members⟩, .key key => do
    let slot ← Shape.slot? slots key
    let j ← members.lookup slot.responseKey
    return ⟨slot.content.expected, j⟩
  | ⟨.level slots, .array items⟩, .index i => items[i]?.map (⟨.level slots, ·⟩)
  | ⟨.scalar type kind, .array items⟩, .index i => do
    let element ← type.element?
    let j ← items[i]?
    return ⟨.scalar element kind, j⟩
  | _, _ => none

def follow? (start : Point) (path : ResultPath) : Option Point := path.foldlM step? start

end Point

/-- A defect at a path or below it, with its place there and the error that reports it. -/
inductive DefectAt : ResultPath → Point → Place → DecodeError → Prop where
  | missing {path : ResultPath} {slots : Shape} {members : List (String × Json)} {i : Nat}
      {slot : Slot Content} (asked : slots[i]? = some slot)
      (absent : members.lookup slot.responseKey = none) :
      DefectAt path ⟨.level slots, .object members⟩ [i] (.missingField (path ++ [.key slot.key]))
  | malformed {path : ResultPath} {slots : Shape} {j : Json} (plain : j.isPlain = true) :
      DefectAt path ⟨.level slots, j⟩ [] (.malformedResponse path j.kind)
  | null {path : ResultPath} {inner : WireType} {kind : ScalarKind} :
      DefectAt path ⟨.scalar (.nonNull inner) kind, .null⟩ [] (.unexpectedNull path)
  | mismatch {path : ResultPath} {type : WireType} {kind : ScalarKind} {j : Json}
      (present : j ≠ .null) (refused : ¬ type.Admits kind j) :
      DefectAt path ⟨.scalar type kind, j⟩ [] (.scalarMismatch path type.nullable j.kind)
  | inside {path : ResultPath} {point part : Point} {i : Nat} {step : PathStep} {place : Place}
      {e : DecodeError} (leads : point.Part i step part)
      (within : DefectAt (path ++ [step]) part place e) : DefectAt path point (i :: place) e

/-- The error of the first defect: there is none at a lesser place. -/
def First (defects : Place → DecodeError → Prop) (place : Place) (e : DecodeError) : Prop :=
  defects place e ∧ ∀ place' e', defects place' e' → ¬ place' < place

namespace Shape

/-- A defect of a response. One that is no object is a defect as a whole. -/
inductive Defect (shape : Shape) (response : Json) : Place → DecodeError → Prop where
  | root (shapeless : ∀ members, response ≠ .object members) :
      Defect shape response [] (.malformedResponse [] response.kind)
  | inside {members : List (String × Json)} {place : Place} {e : DecodeError}
      (object : response = .object members)
      (within : DefectAt [] ⟨.level shape, response⟩ place e) : Defect shape response place e

end Shape

end WireQuery
