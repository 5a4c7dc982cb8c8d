import WireQuery.Proofs.Compile.Met
import WireQuery.Proofs.Document.Exactness
import WireQuery.Proofs.Document.Spelling
import WireQuery.Proofs.WireType.RoundTrip

/-!
# Reading compiled documents

A compiled document is well-formed, since compiling has checked its names, its groups and the
descriptors of its variables. So it can be read back from either of its texts.
-/

namespace WireQuery
set_option autoImplicit false

open Requirement

namespace Node

theorem argument_wellFormed {requirements : List Requirement} (met : Met requirements)
    {entry : String × VariableRef} (hname : valid .argument entry.1 ∈ requirements)
    (hreference : reference entry.2 ∈ requirements) : (argument entry).WellFormed := by
  obtain ⟨bare, hbare, hvalid⟩ := met.references _ hreference
  refine ⟨met.names _ _ hname, ?_⟩
  rw [argument, hbare]
  exact hvalid

theorem wireName_valid {path : List String} {key : String} {node : Node}
    (met : Met (ofNode path key node)) (hkey : Name.isValid key = true) :
    Name.isValid (node.wireName key) = true := by
  rw [wireName, callOrPlain_eq]
  cases hcalls : node.call? with
  | none => exact hkey
  | some call => exact met.names _ _ (ofCall_subset_ofNode path key node hcalls List.mem_cons_self)

theorem field_wellFormed {path : List String} {key : String} {node : Node}
    (met : Met (ofNode path key node)) (hkey : Name.isValid key = true) :
    (node.field key).WellFormed := by
  refine ⟨wireName_valid met hkey, ?_, ?_⟩
  · intro text htext
    simp only [field] at htext
    split at htext
    · cases htext
    · cases htext
      exact hkey
  · intro a ha
    obtain ⟨entry, hentry, rfl⟩ := List.mem_map.mp ha
    rw [callOrPlain_eq] at hentry
    cases hcalls : node.call? with
    | none =>
      rw [hcalls] at hentry
      cases hentry
    | some call =>
      rw [hcalls] at hentry
      obtain ⟨hname, hreference⟩ := mem_ofCall_argument key hentry
      have hsub := ofCall_subset_ofNode path key node hcalls
      exact argument_wellFormed met (hsub hname) (hsub hreference)

mutual

theorem selection_wellFormed (path : List String) (key : String) :
    ∀ (node : Node), Met (ofNode path key node) → Name.isValid key = true →
      (node.selection key).WellFormed
  | scalar _ _, met, hkey => field_wellFormed met hkey
  | group call children, met, hkey => by
    refine ⟨field_wellFormed met hkey, ?_, selections_wellFormed path children met.right.tail⟩
    have hfilled := met.populated path children (List.mem_append_right _ List.mem_cons_self)
    cases children with
    | nil => exact absurd rfl hfilled
    | cons child rest => exact List.cons_ne_nil _ _

theorem selections_wellFormed (path : List String) :
    ∀ (children : List (String × Node)), Met (ofChildren path children) →
      Selection.AllWellFormed (selections children)
  | [], _ => trivial
  | (key, node) :: rest, met =>
    ⟨selection_wellFormed (path ++ [key]) key node met.left.tail
        (met.names _ _ (List.mem_append_left _ List.mem_cons_self)),
      selections_wellFormed path rest met.right⟩

end

end Node

namespace Group

variable {root : Group} {operationName : Option String} {table : ScalarTable} {query : Query}

theorem definition_wellFormed (h : root.compile operationName table = .ok query) :
    ∀ d ∈ query.document.definitions, d.WellFormed := by
  have met := met_of_compile h
  obtain ⟨uses, definitions, huses, hdefinitions, rfl⟩ := exists_of_compile h
  intro d hd
  obtain ⟨⟨bare, descriptor⟩, hentry, hdefinition⟩ :=
    Outcome.exists_mem_of_mapM_eq_ok hdefinitions hd
  obtain ⟨r, hr, hmention⟩ := List.mem_filterMap.mp (mem_mentions_of_checkAll huses hentry)
  unfold VariableUses.definition at hdefinition
  split at hdefinition
  · next type htype =>
    cases hdefinition
    obtain ⟨-, htype⟩ := WireType.read_eq_ok.mp htype
    refine ⟨?_, htype.name, htype.canonical⟩
    cases r with
    | selects path children => cases hmention
    | valid role name => cases hmention
    | reference v =>
      obtain ⟨bare', hbare', hvalid⟩ := met.references v hr
      obtain ⟨hbare, -⟩ := mention?_reference.mp hmention
      rw [hbare] at hbare'
      cases hbare'
      exact hvalid
  · cases hdefinition

theorem document_wellFormed (h : root.compile operationName table = .ok query) :
    query.document.WellFormed := by
  have met := met_of_compile h
  have hdefinitions := definition_wellFormed h
  obtain ⟨uses, definitions, -, -, rfl⟩ := exists_of_compile h
  have hfilled := met.right.populated [] root.children List.mem_cons_self
  refine ⟨?_, hdefinitions, ?_, Node.selections_wellFormed [] root.children met.right.tail⟩
  · rintro name rfl
    exact met.names _ _ (List.mem_append_left _ List.mem_cons_self)
  · change Node.selections root.children ≠ []
    cases hchildren : root.children with
    | nil => exact absurd hchildren hfilled
    | cons child rest => exact List.cons_ne_nil _ _

end Group

namespace Document

theorem read_write {document : Document} (h : document.WellFormed) (style : TextStyle) :
    read (document.write style) = some document :=
  read_eq_some.mpr ⟨Scanner.readAll_of_spells (spells_write h style), h⟩

/-- The reader for the grammar of documents gives every compiled document back from each of its
texts, so either text determines the document. -/
theorem text_determines :
    (∀ text document, read text = some document ↔
      Token.scanner.readAll text = some document.tokens ∧ document.WellFormed) ∧
    (∀ (root : Group) (operationName : Option String) (table : ScalarTable) (query : Query),
      root.compile operationName table = .ok query →
        ∀ style, read (query.document.write style) = some query.document) ∧
    (∀ (root root' : Group) (operationName operationName' : Option String)
      (table table' : ScalarTable) (query query' : Query),
      root.compile operationName table = .ok query →
        root'.compile operationName' table' = .ok query' →
          ∀ style, query.document.write style = query'.document.write style →
            query.document = query'.document) := by
  refine ⟨fun text document => read_eq_some, ?_, ?_⟩
  · intro root operationName table query compiled style
    exact read_write (Group.document_wellFormed compiled) style
  · intro root root' operationName operationName' table table' query query' compiled compiled'
      style heq
    have hread := read_write (Group.document_wellFormed compiled) style
    rw [heq, read_write (Group.document_wellFormed compiled') style] at hread
    exact (Option.some.inj hread).symm

/-- A price in some currencies, and the lines of an order. -/
def priceRoot : Group :=
  .ofList [("total", .scalar
      (some (.ofList (some "price") [("currencies", ⟨"$of", "[ID!]!"⟩)])) "Float!"),
    ("lines", .group none [("sku", .scalar none "ID")])]

def priceDocument : Document where
  operationName := some "Price"
  definitions := [⟨"of", .nonNull (.list (.nonNull (.named "ID")))⟩]
  selections := [.leaf ⟨"price", some "total", [⟨"currencies", "of"⟩]⟩,
    .nested ⟨"lines", none, []⟩ [.leaf ⟨"sku", none, []⟩]]

theorem text_determines_price :
    ∃ query, priceRoot.compile (some "Price") .builtin = .ok query ∧
      query.document = priceDocument ∧
      priceDocument.write .compact =
        "query Price($of: [ID!]!) \x7b total: price(currencies: $of) lines \x7b sku \x7d \x7d" ∧
      ∀ style, read (priceDocument.write style) = some priceDocument := by
  have compiled : priceRoot.compile (some "Price") .builtin = .ok ⟨priceDocument,
      Node.shape .builtin priceRoot.children, .builtin⟩ := by with_unfolding_all rfl
  have htext : priceDocument.write .compact =
      "query Price($of: [ID!]!) \x7b total: price(currencies: $of) lines \x7b sku \x7d \x7d" := by
    rfl
  obtain ⟨-, hread, -⟩ := text_determines
  have hprice := hread _ _ _ _ compiled
  exact ⟨_, compiled, rfl, htext, hprice⟩

end Document

end WireQuery
