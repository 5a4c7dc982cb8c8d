import WireQuery.Proofs.Request.Bound
import WireQuery.Proofs.Service.Basic

/-!
# Compiling preserves meaning

The response to a compiled document, decoded through the compiled shape, is the meaning of the
specification: the same value, or the same error at the same path. The induction is on the tree.
At each node the selection is answered where the slot is decoded, since both have the key of the
node for a response key.
-/

namespace WireQuery
set_option autoImplicit false

universe u
variable {Obj : Type u}

namespace NestedResult

variable {write : Obj → Json} {read : ResultPath → Obj → Except DecodeError Value}
  {decodeMembers : ResultPath → List (String × Json) →
    Except DecodeError (List (String × Value))}

theorem decodeLevel_of_isPlain (path : ResultPath) {j : Json} (plain : j.isPlain = true) :
    Shape.decodeLevel decodeMembers path j = .error (.malformedResponse path j.kind) := by
  cases j with
  | null => cases plain
  | array items => cases plain
  | object members => cases plain
  | bool b => simp only [Shape.decodeLevel]
  | number n => simp only [Shape.decodeLevel]
  | string s => simp only [Shape.decodeLevel]

mutual

/-- If objects are decoded to what is read from them, so are nested results. -/
theorem decodeLevel_toJson
    (agree : ∀ path o, Shape.decodeLevel decodeMembers path (write o) = read path o) :
    ∀ (result : NestedResult Obj) (path : ResultPath),
      Shape.decodeLevel decodeMembers path (result.toJson write) = result.value read path
  | null, path => by rw [toJson, value, Shape.decodeLevel]
  | list items, path => by
    rw [toJson, value, Shape.decodeLevel, decodeLevels_itemsToJson agree items path 0]
  | object o, path => by rw [toJson, value, agree]
  | other j plain, path => by rw [toJson, value, decodeLevel_of_isPlain path plain]

theorem decodeLevels_itemsToJson
    (agree : ∀ path o, Shape.decodeLevel decodeMembers path (write o) = read path o) :
    ∀ (items : List (NestedResult Obj)) (path : ResultPath) (start : Nat),
      Shape.decodeLevels decodeMembers path start (itemsToJson write items) =
        valuesFrom read path start items
  | [], path, start => by rw [itemsToJson, valuesFrom, Shape.decodeLevels]
  | item :: rest, path, start => by
    rw [itemsToJson, valuesFrom, Shape.decodeLevels, decodeLevel_toJson agree item,
      decodeLevels_itemsToJson agree rest path (start + 1)]

end

end NestedResult

namespace Service

variable {service : Service Obj} {bindings : Bindings} {table : ScalarTable}

theorem decode_ofDescriptor (descriptor : String) (path : ResultPath) (j : Json) :
    (Leaf.ofDescriptor table descriptor).decode path j = scalarValue table descriptor path j := by
  unfold Leaf.ofDescriptor scalarValue
  cases WireType.read descriptor with
  | ok type => rfl
  | error malformed => rfl

@[simp] theorem name_field (key : String) (node : Node) :
    (node.field key).name = fieldName key node.call? := by
  cases node with
  | scalar call descriptor => cases call <;> rfl
  | group call children => cases call <;> rfl

theorem resolve_argument {argument : String × VariableRef}
    (named : argument.2.bareName?.isSome = true) :
    (bindings.get? (Node.argument argument).variableName).map
        (fun j => ((Node.argument argument).name, j)) =
      (argument.2.bareName?.bind bindings.get?).map fun j => (argument.1, j) := by
  obtain ⟨bare, hbare⟩ := Option.isSome_iff_exists.mp named
  simp [Node.argument, hbare]

/-- Where every reference has its sigil, the field asks with the arguments of the call. -/
theorem resolve_field (key : String) (node : Node)
    (named : ∀ call, node.call? = some call → ∀ argument ∈ call.arguments,
      argument.2.bareName?.isSome = true) :
    bindings.resolve (node.field key).arguments = bindings.resolveCall node.call? := by
  have harguments : (node.field key).arguments =
      (node.call?.getD .plain).arguments.map Node.argument := by
    rw [← Node.callOrPlain_eq]
    rfl
  rw [harguments]
  cases hcall : node.call? with
  | none => rfl
  | some call =>
    simp only [Option.getD_some, Bindings.resolve, Bindings.resolveCall, List.filterMap_map]
    apply List.filterMap_congr
    intro argument hargument
    exact resolve_argument (named call hcall argument hargument)

theorem answers_selections (o : Obj) (children : List (String × Node)) :
    answers service bindings o (Node.selections children) =
      children.map fun child =>
        (child.1, answer service bindings o (child.2.selection child.1)) := by
  induction children with
  | nil => rfl
  | cons child rest ih =>
    simp [Node.selections, answers, ih]

/-- Every child is answered under its key, wherever sorting puts the answer. -/
theorem lookup_answers {children : List (String × Node)} (distinct : Keyed.DistinctKeys children)
    (o : Obj) {child : String × Node} (hchild : child ∈ children) :
    (Keyed.sort (answers service bindings o (Node.selections children))).lookup child.1 =
      some (answer service bindings o (child.2.selection child.1)) := by
  have hkeys : Keyed.DistinctKeys (answers service bindings o (Node.selections children)) := by
    rw [answers_selections, Keyed.DistinctKeys, Keyed.keys, List.map_map]
    exact distinct
  rw [Keyed.lookup_sort hkeys]
  rw [answers_selections] at hkeys ⊢
  exact Keyed.lookup_eq_some_of_mem hkeys (List.mem_map_of_mem hchild)

theorem resolve_field_of_met {keys : List String} (key : String) (node : Node)
    (met : Requirement.Met (Requirement.ofNode keys key node)) :
    bindings.resolve (node.field key).arguments = bindings.resolveCall node.call? := by
  apply resolve_field
  intro call calls argument hargument
  obtain ⟨-, hreference⟩ := Requirement.mem_ofCall_argument key hargument
  obtain ⟨bare, hbare, -⟩ :=
    met.references _ (Requirement.ofCall_subset_ofNode keys key node calls hreference)
  rw [hbare]
  rfl

mutual

theorem decodeContent_content (table : ScalarTable) (keys : List String) (key : String) :
    ∀ (node : Node) (o : Obj) (path : ResultPath), node.WellKeyed →
      Requirement.Met (Requirement.ofNode keys key node) →
      Shape.decodeContent (node.content table) path
          (answer service bindings o (node.selection key)) =
        meaning service bindings table o path key node
  | .scalar call descriptor, o, path, _, met => by
    rw [Node.content, Shape.decodeContent, decode_ofDescriptor, Node.selection, answer,
      name_field, resolve_field_of_met key _ met, meaning]
    rfl
  | .group call children, o, path, ⟨distinct, wellKeyed⟩, met => by
    rw [Node.content, Shape.decodeContent, Node.selection, answer, name_field,
      resolve_field_of_met key _ met, meaning]
    apply NestedResult.decodeLevel_toJson
    intro path' inner
    rw [Shape.decodeLevel, decodeSlots_shape table keys children inner path' _ wellKeyed
      met.right.tail]
    intro child hchild
    exact lookup_answers distinct inner hchild

theorem decodeSlots_shape (table : ScalarTable) (keys : List String) :
    ∀ (children : List (String × Node)) (o : Obj) (path : ResultPath)
      (members : List (String × Json)), Node.ChildrenWellKeyed children →
      Requirement.Met (Requirement.ofChildren keys children) →
      (∀ child ∈ children,
        members.lookup child.1 = some (answer service bindings o (child.2.selection child.1))) →
      Shape.decodeSlots (Node.shape table children) path members =
        meanings service bindings table o path children
  | [], o, path, members, _, _, _ => by rw [Node.shape, Shape.decodeSlots, meanings]
  | (key, node) :: rest, o, path, members, ⟨wellKeyed, restWellKeyed⟩, met, answered => by
    rw [Node.shape, Shape.decodeSlots, meanings, Node.responseKey_field,
      answered _ List.mem_cons_self]
    dsimp only
    rw [decodeContent_content table (keys ++ [key]) key node o _ wellKeyed met.left.tail,
      decodeSlots_shape table keys rest o path members restWellKeyed met.right
        fun child hchild => answered child (List.mem_cons_of_mem _ hchild)]

end

end Service

open Service

/-- For bindings that are accepted, the decoded response is the meaning of the specification, and
no argument that the specification passes is without a value. -/
theorem decode_execute {root : Group} {operationName : Option String}
    {table : ScalarTable} {query : Query} (compiled : root.compile operationName table = .ok query)
    {bindings : Bindings} (accepted : query.document.checkBindings query.table bindings = .ok ())
    (service : Service Obj) (o : Obj) :
    query.shape.decode (service.execute bindings o query.document.selections) =
        service.interpret bindings table o root ∧
      ∀ argument v, root.Passes argument v →
        ∃ bare j, v.written = "$" ++ bare ∧ bindings.get? bare = some j := by
  constructor
  · obtain ⟨distinct, childrenWellKeyed⟩ := root.wellKeyed
    have met := Group.met_of_compile compiled
    obtain ⟨uses, definitions, -, -, rfl⟩ := Group.exists_of_compile compiled
    have hslots := decodeSlots_shape table [] root.children o []
      (Keyed.sort (answers service bindings o (Node.selections root.children)))
      childrenWellKeyed met.right.tail fun child hchild => lookup_answers distinct o hchild
    rw [interpret, ← hslots]
    rfl
  · intro argument v passes
    exact Group.exists_value_of_passes compiled accepted passes

/-- The total of an order comes from its price, and its identifier is a variable. -/
def orderTotal : Group :=
  .ofList [("order", .group (some (.ofList none [("id", ⟨"$id", "ID!"⟩)]))
    [("total", .scalar (some (.ofList (some "price") [])) "String!"),
      ("lines", .group none [("sku", .scalar none "[ID]")])])]

def orderTotalQuery : Query where
  document := ⟨none, [⟨"id", .nonNull (.named "ID")⟩],
    [.nested ⟨"order", none, [⟨"id", "id"⟩]⟩
      [.leaf ⟨"price", some "total", []⟩, .nested ⟨"lines", none, []⟩ [.leaf ⟨"sku", none, []⟩]]]⟩
  shape := [⟨"order", "order", .nested [
    ⟨"total", "total", .leaf (.typed (.nonNull (.named "String")) .text)⟩,
    ⟨"lines", "lines", .nested [⟨"sku", "sku", .leaf (.typed (.list (.named "ID")) .text)⟩]⟩]⟩]
  table := .builtin

/-- A service with the one order `o-1`, whose second line is null. -/
def orderService : Service Nat where
  terminal _ name _ :=
    match name with
    | "price" => .string "12.50"
    | "sku" => .array [.string "A", .null]
    | _ => .null
  nested _ name arguments :=
    match name, arguments with
    | "order", [("id", .string "o-1")] => .object 1
    | "lines", [] => .list [.object 2, .null]
    | _, _ => .null

theorem decode_execute_order :
    orderTotal.compile none .builtin = .ok orderTotalQuery ∧
      ∃ bindings : Bindings, bindings.entries = [("id", .string "o-1")] ∧
        orderTotalQuery.document.checkBindings orderTotalQuery.table bindings = .ok () ∧
        orderTotalQuery.shape.decode
            (orderService.execute bindings 0 orderTotalQuery.document.selections) =
          .ok (.object [("order", .object [("total", .text "12.50"),
            ("lines", .list [.object [("sku", .list [.text "A", .null])], .null])])]) := by
  have compiled : orderTotal.compile none .builtin = .ok orderTotalQuery := by
    with_unfolding_all rfl
  let bindings : Bindings := ⟨[("id", .string "o-1")], List.pairwise_singleton _ _⟩
  have accepted : orderTotalQuery.document.checkBindings orderTotalQuery.table bindings = .ok () :=
    by rfl
  refine ⟨compiled, bindings, rfl, accepted, ?_⟩
  obtain ⟨hmeaning, -⟩ := decode_execute compiled accepted orderService 0
  rw [hmeaning]
  with_unfolding_all rfl

end WireQuery
