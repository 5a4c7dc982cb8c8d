import WireQuery.Proofs.Compile.Reordered
import WireQuery.Proofs.Result.Decoding
import WireQuery.Proofs.Spec.Grammar

/-!
# Decoding for specifications in another order

A response that is decoded for a specification is decoded for its reorderings, and the results are
equal up to the order of object fields. Hence equal specifications can stand for each other.
-/

namespace WireQuery
set_option autoImplicit false

/-- The same value with the fields of objects in another order, at any levels. -/
inductive Value.Reordered : Value → Value → Prop where
  | refl (v : Value) : Reordered v v
  | list {items items' : List Value} (each : List.Forall₂ Reordered items items') :
      Reordered (.list items) (.list items')
  | object {fields fields' : List (String × Value)}
      (each : Multiset.Rel (Keyed.Matching Reordered) (fields : Multiset (String × Value))
        (fields' : Multiset (String × Value))) :
      Reordered (.object fields) (.object fields')

theorem Decoder.itemsFrom_reordered {decode decode' : Decoder Value} {items : List Json}
    (each : ∀ item ∈ items, ∀ path v, decode path item = .ok v →
      ∃ v', decode' path item = .ok v' ∧ v.Reordered v') {path : ResultPath} {start : Nat}
    {values : List Value} (decoded : itemsFrom decode path start items = .ok values) :
    ∃ values', itemsFrom decode' path start items = .ok values' ∧
      List.Forall₂ Value.Reordered values values' := by
  induction items generalizing start values with
  | nil =>
    cases decoded
    exact ⟨[], rfl, .nil⟩
  | cons item rest ih =>
    obtain ⟨hitem, hrest⟩ := List.forall_mem_cons.mp each
    obtain ⟨v, hv, decoded⟩ := Outcome.bind_eq_ok.mp decoded
    obtain ⟨others, hothers, heq⟩ := Outcome.bind_eq_ok.mp decoded
    cases heq
    obtain ⟨v', hv', hvalue⟩ := hitem _ v hv
    obtain ⟨others', hothers', hvalues⟩ := ih hrest hothers
    refine ⟨v' :: others', ?_, .cons hvalue hvalues⟩
    rw [itemsFrom, hv', hothers']
    rfl

theorem Shape.decodeLevel_reordered {decodeMembers decodeMembers' : ResultPath →
      List (String × Json) → Except DecodeError (List (String × Value))}
    (objects : ∀ {path members fields}, decodeMembers path members = .ok fields →
      ∃ fields', decodeMembers' path members = .ok fields' ∧
        Keyed.Reordered Value.Reordered fields fields')
    (j : Json) (path : ResultPath) (v : Value)
    (decoded : decodeLevel decodeMembers path j = .ok v) :
    ∃ v', decodeLevel decodeMembers' path j = .ok v' ∧ v.Reordered v' := by
  induction j using Json.induction generalizing path v with
  | object members _ =>
    rw [decodeLevel] at decoded
    obtain ⟨fields, hfields, rfl⟩ := Outcome.map_eq_ok.mp decoded
    obtain ⟨fields', hfields', each⟩ := objects hfields
    refine ⟨.object fields', ?_, .object each⟩
    rw [decodeLevel, hfields']
    rfl
  | array items ih =>
    rw [decodeLevel, decodeLevels_eq_itemsFrom] at decoded
    obtain ⟨values, hvalues, rfl⟩ := Outcome.map_eq_ok.mp decoded
    obtain ⟨values', hvalues', each⟩ := Decoder.itemsFrom_reordered ih hvalues
    refine ⟨.list values', ?_, .list each⟩
    rw [decodeLevel, decodeLevels_eq_itemsFrom, hvalues']
    rfl
  | null =>
    rw [decodeLevel] at decoded
    cases decoded
    exact ⟨.null, by rw [decodeLevel], .refl _⟩
  | bool b => simp [decodeLevel] at decoded
  | number n => simp [decodeLevel] at decoded
  | string s => simp [decodeLevel] at decoded

namespace Node

/-- Decodes the member of a child. -/
def decodeChild (table : ScalarTable) (path : ResultPath) (members : List (String × Json))
    (child : String × Node) : Except DecodeError (String × Value) :=
  match members.lookup child.1 with
  | none => .error (.missingField (path ++ [.key child.1]))
  | some j => (fun v => (child.1, v)) <$>
      Shape.decodeContent (child.2.content table) (path ++ [.key child.1]) j

theorem decodeSlots_eq_mapM (table : ScalarTable) (path : ResultPath)
    (members : List (String × Json)) (children : List (String × Node)) :
    Shape.decodeSlots (shape table children) path members =
      children.mapM (decodeChild table path members) := by
  induction children with
  | nil => rfl
  | cons child rest ih =>
    rw [shape, Shape.decodeSlots, responseKey_field, List.mapM_cons, ih, decodeChild]
    cases members.lookup child.1 with
    | none => rfl
    | some j =>
      dsimp only
      cases Shape.decodeContent (child.2.content table) (path ++ [.key child.1]) j <;> rfl

theorem decodeChild_eq_ok {table : ScalarTable} {path : ResultPath}
    {members : List (String × Json)} {child : String × Node} {field : String × Value} :
    decodeChild table path members child = .ok field ↔ ∃ j v, members.lookup child.1 = some j ∧
      Shape.decodeContent (child.2.content table) (path ++ [.key child.1]) j = .ok v ∧
        (child.1, v) = field := by
  rw [decodeChild]
  cases members.lookup child.1 with
  | none => simp
  | some j => simp [Outcome.map_eq_ok]

theorem decodeSlots_reordered {table : ScalarTable} {children children' : List (String × Node)}
    (h : Keyed.Reordered Node.Reordered children children')
    (distinct : Keyed.DistinctKeys children) (distinct' : Keyed.DistinctKeys children')
    (each : ∀ {key child child'}, (key, child) ∈ children → (key, child') ∈ children' →
      child.Reordered child' → ∀ {path j v},
        Shape.decodeContent (child.content table) path j = .ok v →
          ∃ v', Shape.decodeContent (child'.content table) path j = .ok v' ∧ v.Reordered v')
    {path : ResultPath} {members : List (String × Json)} {fields : List (String × Value)}
    (decoded : Shape.decodeSlots (shape table children) path members = .ok fields) :
    ∃ fields', Shape.decodeSlots (shape table children') path members = .ok fields' ∧
      Keyed.Reordered Value.Reordered fields fields' := by
  have hkey : ∀ (child : String × Node) (field : String × Value),
      decodeChild table path members child = .ok field → field.1 = child.1 := by
    intro child field hfield
    obtain ⟨j, v, -, -, rfl⟩ := decodeChild_eq_ok.mp hfield
    rfl
  rw [decodeSlots_eq_mapM] at decoded ⊢
  refine Keyed.Reordered.mapM h distinct distinct' hkey hkey ?_ decoded
  intro key child child' hchild hchild' reordered field hfield
  obtain ⟨j, v, hj, hv, rfl⟩ := decodeChild_eq_ok.mp hfield
  obtain ⟨v', hv', hvalue⟩ := each hchild hchild' reordered hv
  exact ⟨(key, v'), decodeChild_eq_ok.mpr ⟨j, v', hj, hv', rfl⟩, hvalue⟩

theorem Reordered.decodeContent {node node' : Node} (h : node.Reordered node')
    (wellKeyed : node.WellKeyed) (wellKeyed' : node'.WellKeyed) {table : ScalarTable}
    {path : ResultPath} {j : Json} {v : Value}
    (decoded : Shape.decodeContent (node.content table) path j = .ok v) :
    ∃ v', Shape.decodeContent (node'.content table) path j = .ok v' ∧ v.Reordered v' := by
  induction node using Node.induction generalizing node' path j v with
  | scalar call descriptor =>
    cases h with
    | scalar _ calls => exact ⟨v, decoded, .refl v⟩
  | group call children ih =>
    cases h with
    | group calls each =>
      obtain ⟨distinct, childrenWellKeyed⟩ := wellKeyed
      obtain ⟨distinct', childrenWellKeyed'⟩ := wellKeyed'
      rw [content, Shape.decodeContent] at decoded ⊢
      refine Shape.decodeLevel_reordered ?_ j path v decoded
      intro path members fields hfields
      refine decodeSlots_reordered each distinct distinct' ?_ hfields
      intro key child child' hchild hchild' reordered path j v
      exact ih _ hchild reordered (childrenWellKeyed_iff.mp childrenWellKeyed _ hchild)
        (childrenWellKeyed_iff.mp childrenWellKeyed' _ hchild')

end Node

theorem Group.Reordered.decode {root root' : Group} (h : root.Reordered root')
    {table : ScalarTable} {response : Json} {v : Value}
    (decoded : (Node.shape table root.children).decode response = .ok v) :
    ∃ v', (Node.shape table root'.children).decode response = .ok v' ∧ v.Reordered v' := by
  cases response with
  | object members =>
    have hroot : ∀ g : Group, (Node.shape table g.children).decode (.object members) =
        Shape.decodeContent ((Node.group none g.children).content table) [] (.object members) :=
      fun _ => rfl
    rw [hroot] at decoded ⊢
    exact h.node.decodeContent root.wellKeyed root'.wellKeyed decoded
  | _ => cases decoded

/-- Two queries say the same up to order: their texts, their shapes and what is decoded. -/
structure Query.Interchangeable (query query' : Query) : Prop where
  operationName : query.operationName = query'.operationName
  shapes : query.shape.same query'.shape = true
  definitions : query.document.definitions.Perm query'.document.definitions
  selections : Multiset.Rel Selection.Reordered (query.document.selections : Multiset Selection)
    (query'.document.selections : Multiset Selection)
  decoded : ∀ response v, query.shape.decode response = .ok v →
    ∃ v', query'.shape.decode response = .ok v' ∧ v.Reordered v'
  refused : ∀ response e, query.shape.decode response = .error e →
    ∃ e', query'.shape.decode response = .error e'

namespace Group

theorem Reordered.interchangeable {root root' : Group} (h : root.Reordered root')
    {operationName : Option String} {table : ScalarTable} {query query' : Query}
    (compiled : root.compile operationName table = .ok query)
    (compiled' : root'.compile operationName table = .ok query') :
    query.Interchangeable query' := by
  have hdefinitions := h.definitions_perm compiled compiled'
  obtain ⟨uses, definitions, -, -, rfl⟩ := exists_of_compile compiled
  obtain ⟨uses', definitions', -, -, rfl⟩ := exists_of_compile compiled'
  exact {
    operationName := rfl
    shapes := h.node.content_same root'.wellKeyed table
    definitions := hdefinitions
    selections := h.selections
    decoded := fun response v => h.decode
    refused := by
      intro response e refused
      cases hdecode : (Node.shape table root'.children).decode response with
      | error e' => exact ⟨e', rfl⟩
      | ok v' =>
        obtain ⟨v, hv, -⟩ := h.symm.decode hdecode
        exact nomatch hv.symm.trans refused }

/-- Equality ignores the order of keys and of arguments, and equal specifications compile or fail
together. Their queries are then the same up to order. -/
theorem same_interchangeable (root root' : Group) :
    (root.same root' = true ↔ root.Reordered root') ∧
    (root.same root' = true → ∀ (operationName : Option String) (table : ScalarTable),
      ((∃ query, root.compile operationName table = .ok query) ↔
        ∃ query', root'.compile operationName table = .ok query') ∧
      ∀ query query', root.compile operationName table = .ok query →
        root'.compile operationName table = .ok query' → query.Interchangeable query') := by
  refine ⟨same_iff_reordered, ?_⟩
  intro same operationName table
  have h := same_iff_reordered.mp same
  refine ⟨⟨?_, ?_⟩, fun query query' => h.interchangeable⟩
  · rintro ⟨query, compiled⟩
    exact h.compiles compiled
  · rintro ⟨query', compiled'⟩
    exact h.symm.compiles compiled'

/-- A list of orders. -/
def recentOrders : Group :=
  .ofList [("orders", .group
      (some (.ofList (some "recent") [("first", ⟨"$count", "Int"⟩), ("by", ⟨"$id", "ID!"⟩)]))
      [("number", .scalar none "Int!"), ("lines", .group none [("sku", .scalar none "ID"),
        ("stock", .scalar
          (some (.ofList none [("at", ⟨"$id", "ID!"⟩), ("limit", ⟨"$count", "Int"⟩)])) "Int")])]),
    ("total", .scalar none "Int")]

/-- The same list with other orders of keys and arguments at each level. -/
def recentOrdersReversed : Group :=
  .ofList [("total", .scalar none "Int"),
    ("orders", .group
      (some (.ofList (some "recent") [("by", ⟨"$id", "ID!"⟩), ("first", ⟨"$count", "Int"⟩)]))
      [("lines", .group none [("stock", .scalar
          (some (.ofList none [("limit", ⟨"$count", "Int"⟩), ("at", ⟨"$id", "ID!"⟩)])) "Int"),
        ("sku", .scalar none "ID")]), ("number", .scalar none "Int!")])]

theorem same_interchangeable_orders :
    recentOrders.same recentOrdersReversed = true ∧
      recentOrders.Reordered recentOrdersReversed ∧
      ∃ query query', recentOrders.compile none .builtin = .ok query ∧
        recentOrdersReversed.compile none .builtin = .ok query' ∧
        query.document.definitions.map VariableDefinition.name = ["count", "id"] ∧
        query'.document.definitions.map VariableDefinition.name = ["id", "count"] ∧
        query.Interchangeable query' := by
  have same : recentOrders.same recentOrdersReversed = true := by rfl
  have compiled : recentOrders.compile none .builtin = .ok ⟨⟨none,
      [⟨"count", .named "Int"⟩, ⟨"id", .nonNull (.named "ID")⟩],
      Node.selections recentOrders.children⟩, Node.shape .builtin recentOrders.children,
      .builtin⟩ := by with_unfolding_all rfl
  have compiled' : recentOrdersReversed.compile none .builtin = .ok ⟨⟨none,
      [⟨"id", .nonNull (.named "ID")⟩, ⟨"count", .named "Int"⟩],
      Node.selections recentOrdersReversed.children⟩,
      Node.shape .builtin recentOrdersReversed.children, .builtin⟩ := by with_unfolding_all rfl
  obtain ⟨hreordered, hcompile⟩ := same_interchangeable recentOrders recentOrdersReversed
  obtain ⟨-, interchangeable⟩ := hcompile same none .builtin
  exact ⟨same, hreordered.mp same, _, _, compiled, compiled', rfl, rfl,
    interchangeable _ _ compiled compiled'⟩

end Group

end WireQuery
