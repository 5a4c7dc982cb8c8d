import WireQuery.Proofs.Compile.Lockstep
import WireQuery.Proofs.Variables.Definitions

/-!
# Groups inside a specification

What is required of a group inside a specification is required of the whole, whatever comes before
it. So the group compiles by itself, and to the part that the whole has at its place.
-/

namespace WireQuery
set_option autoImplicit false

theorem LeadsTo.trans {children inner found : List (String × Node)} {path rest : List String}
    (h : LeadsTo children path inner) (h' : LeadsTo inner rest found) :
    LeadsTo children (path ++ rest) found := by
  induction h with
  | here => exact h'
  | inside child _ ih => exact .inside child (ih h')

namespace Group

variable {root part : Group} {path : List String}

theorem Holds.outside {key : String} {node : Node} (h : part.Holds key node)
    (leads : LeadsTo root.children path part.children) : root.Holds key node := by
  obtain ⟨rest, found, leadsOn, child⟩ := h
  exact ⟨path ++ rest, found, leads.trans leadsOn, child⟩

theorem Passes.outside {argument : String} {v : VariableRef} (h : part.Passes argument v)
    (leads : LeadsTo root.children path part.children) : root.Passes argument v := by
  obtain ⟨key, node, call, holds, calls, passes⟩ := h
  exact ⟨key, node, call, holds.outside leads, calls, passes⟩

/-- A group inside a compilable specification is compilable, since all that it holds the
specification holds too. -/
theorem Compilable.inside {operationName : Option String} (h : Compilable operationName root)
    (leads : LeadsTo root.children path part.children) : Compilable none part where
  operation := nofun
  populated rest found leadsOn := h.populated (path ++ rest) found (leads.trans leadsOn)
  keys key node holds := h.keys key node (holds.outside leads)
  wireNames key node call holds := h.wireNames key node call (holds.outside leads)
  arguments argument v passes := h.arguments argument v (passes.outside leads)
  references argument v passes := h.references argument v (passes.outside leads)
  agreement bare argument argument' v v' passes passes' :=
    h.agreement bare argument argument' v v' (passes.outside leads) (passes'.outside leads)
  descriptors argument v passes := h.descriptors argument v (passes.outside leads)

/-- Each group of a specification that compiles, at any depth and also where an operation selects
it, compiles alone and without a name: to the selections and the slots that the whole has at its
place, and to declarations that the whole has with the same types. -/
theorem compile_inside {operationName : Option String} {table : ScalarTable} {query : Query}
    (compiled : root.compile operationName table = .ok query) {walk : Walk}
    {children : List (String × Node)} (place : root.level? walk = some children) :
    ∃ (part : Group) (inner : Query), part.children = children ∧
      part.compile none table = .ok inner ∧
      query.document.level? walk = some inner.document.selections ∧
      query.shape.level? walk = some inner.shape ∧
      ∀ d ∈ inner.document.definitions, d ∈ query.document.definitions := by
  obtain ⟨path, leads⟩ := Node.exists_leadsTo_of_level? place
  let part : Group := ⟨children, Node.wellKeyed_of_leadsTo leads root.wellKeyed⟩
  have compilable : part.Compilable none := (compilable_of_compile compiled).inside leads
  obtain ⟨inner, hinner⟩ := compile_of_compilable compilable table
  have declared : ∀ d ∈ inner.document.definitions, d ∈ query.document.definitions := by
    intro d hd
    obtain ⟨argument, v, passes, named, hread⟩ := (mem_definitions_iff hinner).mp hd
    exact (mem_definitions_iff compiled).mpr ⟨argument, v, passes.outside leads, named, hread⟩
  obtain ⟨uses, definitions, -, -, rfl⟩ := exists_of_compile compiled
  obtain ⟨uses', definitions', -, -, rfl⟩ := exists_of_compile hinner
  rw [level?] at place
  refine ⟨part, _, rfl, hinner, ?_, ?_, declared⟩
  · rw [Document.level?, Node.level?_selections, place]
    rfl
  · rw [Shape.level?, Node.level?_shape, place]
    rfl

def items : Group :=
  .ofList [("sku", .scalar none "ID"),
    ("stock", .scalar (some (.ofList none [("order", ⟨"$id", "ID!"⟩)])) "Int")]

/-- The items of an order are a group that an operation selects. What they refer to, the order
refers to before them. -/
def orderItems : Group :=
  .ofList [("order", .group
    (some (.ofList none [("first", ⟨"$count", "Int"⟩), ("id", ⟨"$id", "ID!"⟩)]))
    [("number", .scalar none "Int!"),
      ("lines", .group (some (.ofList (some "items") [("limit", ⟨"$count", "Int"⟩)]))
        items.children)])]

def itemQuery : Query where
  document := ⟨none, [⟨"id", .nonNull (.named "ID")⟩],
    [.leaf ⟨"sku", none, []⟩, .leaf ⟨"stock", none, [⟨"order", "id"⟩]⟩]⟩
  shape := [⟨"sku", "sku", .leaf (.typed (.named "ID") .text)⟩,
    ⟨"stock", "stock", .leaf (.typed (.named "Int") .integer)⟩]
  table := .builtin

theorem compile_inside_items :
    ∃ query, orderItems.compile (some "GetOrder") .builtin = .ok query ∧
      orderItems.level? [0, 1] = some items.children ∧
      items.compile none .builtin = .ok itemQuery ∧
      query.document.level? [0, 1] = some itemQuery.document.selections ∧
      query.shape.level? [0, 1] = some itemQuery.shape ∧
      ∀ d ∈ itemQuery.document.definitions, d ∈ query.document.definitions := by
  have compiled : orderItems.compile (some "GetOrder") .builtin = .ok ⟨⟨some "GetOrder",
      [⟨"count", .named "Int"⟩, ⟨"id", .nonNull (.named "ID")⟩],
      Node.selections orderItems.children⟩, Node.shape .builtin orderItems.children, .builtin⟩ := by
    with_unfolding_all rfl
  have alone : items.compile none .builtin = .ok itemQuery := by with_unfolding_all rfl
  have place : orderItems.level? [0, 1] = some items.children := rfl
  obtain ⟨part, inner, hpart, hinner, hparts⟩ := compile_inside compiled place
  rw [Group.ext hpart, alone] at hinner
  cases hinner
  exact ⟨_, compiled, place, alone, hparts⟩

end Group

end WireQuery
