import WireQuery.Proofs.Request.Accepted
import WireQuery.Proofs.Typings.Sound

/-!
# Bindings inhabit the variables interface

The check of bindings and the variables interface of the TypeScript declarations describe the same
objects, up to what a TypeScript type cannot say: that a number is an integer of 64 bits, and that
a value about which nothing is known is there at all.
-/

namespace WireQuery
set_option autoImplicit false

namespace WireType

/-- The parts of a value, the value itself included, each with the type that it is held against. -/
inductive Meets : WireType → Json → WireType → Json → Prop where
  | self (t : WireType) (j : Json) : Meets t j t j
  | item {element type : WireType} {items : List Json} {item part : Json} (among : item ∈ items)
      (within : Meets element item type part) : Meets (list element) (.array items) type part
  | inside {inner type : WireType} {j part : Json} (within : Meets inner j type part) :
      Meets (nonNull inner) j type part

/-- What TypeScript leaves unsaid about a value of the type: its integers fit a signed 64-bit word,
and where a value of unknown kind has to be there it is not null. -/
structure Unsaid (table : ScalarTable) (t : WireType) (j : Json) : Prop where
  integers : ∀ name n, t.Meets j (named name) (.number n) → table.kindOf name = .integer →
    ∃ i, n = .integer i ∧ i.toInt64?.isSome = true
  present : ∀ name part, t.Meets j (nonNull (named name)) part → table.kindOf name = .unknown →
    part ≠ .null

variable {table : ScalarTable} {j : Json}

theorem unsaid_named {name : String} : (named name).Unsaid table j ↔
    ∀ n, j = .number n → table.kindOf name = .integer →
      ∃ i, n = .integer i ∧ i.toInt64?.isSome = true := by
  constructor
  · rintro ⟨integers, -⟩ n rfl
    exact integers name n (.self _ _)
  · intro h
    constructor
    · intro _ n within
      cases within
      exact h n rfl
    · intro _ _ within
      cases within

theorem unsaid_items {element : WireType} {items : List Json} :
    (list element).Unsaid table (.array items) ↔ ∀ item ∈ items, element.Unsaid table item := by
  constructor
  · rintro ⟨integers, present⟩ item among
    exact ⟨fun name n within => integers name n (.item among within),
      fun name part within => present name part (.item among within)⟩
  · intro h
    constructor
    · intro name n within
      cases within with
      | item among within => exact (h _ among).integers name n within
    · intro name part within
      cases within with
      | item among within => exact (h _ among).present name part within

@[simp] theorem unsaid_list_null {element : WireType} : (list element).Unsaid table .null := by
  constructor
  · intro name n within
    cases within
  · intro name part within
    cases within

theorem unsaid_nonNull {inner : WireType} : (nonNull inner).Unsaid table j ↔
    inner.Unsaid table j ∧
      ∀ name, inner = named name → table.kindOf name = .unknown → j ≠ .null := by
  constructor
  · rintro ⟨integers, present⟩
    refine ⟨⟨fun name n within => integers name n (.inside within),
      fun name part within => present name part (.inside within)⟩, ?_⟩
    rintro name rfl
    exact present name j (.self _ _)
  · rintro ⟨⟨integers, present⟩, self⟩
    constructor
    · intro name n within
      cases within with
      | inside within => exact integers name n within
    · intro name part within
      cases within with
      | self => exact self name rfl
      | inside within => exact present name part within

end WireType

namespace TypeScript

variable {declarations : List Declaration} {j : Json}

@[simp] theorem inhabits_orNull {ty : Ty} :
    Inhabits declarations (.union ty .null) j ↔ Inhabits declarations ty j ∨ j = .null := by
  constructor
  · intro h
    cases h with
    | left h => exact Or.inl h
    | right h =>
      cases h
      exact Or.inr rfl
  · rintro (h | rfl)
    · exact .left h
    · exact .right .null

theorem inhabits_array {element : Ty} : Inhabits declarations (.array element) j ↔
    ∃ items, j = .array items ∧ ∀ item ∈ items, Inhabits declarations element item := by
  constructor
  · intro h
    cases h with
    | array each => exact ⟨_, rfl, each⟩
  · rintro ⟨items, rfl, each⟩
    exact .array each

theorem inhabits_interface {name : String} {members : List Member} {fields : List (String × Json)}
    (resolved : Resolves declarations name (.interface name members))
    (required : ∀ member ∈ members, member.optional = false) :
    Inhabits declarations (.reference name) (.object fields) ↔ ∀ member ∈ members,
      ∃ j, fields.lookup member.key = some j ∧ Inhabits declarations member.ty j := by
  constructor
  · intro h
    cases h with
    | interface resolved' present typed =>
      cases resolved.symm.trans resolved'
      intro member hmember
      obtain ⟨j, hj⟩ := present member hmember (required member hmember)
      exact ⟨j, hj, typed member hmember j hj⟩
  · intro h
    refine .interface resolved ?_ ?_
    · intro member hmember _
      obtain ⟨j, hj, -⟩ := h member hmember
      exact ⟨j, hj⟩
    · intro member hmember j hj
      obtain ⟨j', hj', htyped⟩ := h member hmember
      cases hj'.symm.trans hj
      exact htyped

end TypeScript

namespace Typings

open TypeScript (Inhabits inhabits_orNull inhabits_array)

variable {declared : List TypeScript.Declaration} {table : ScalarTable} {j : Json}

theorem ofType_of_nullable (kind : ScalarKind) {t : WireType} (nullable : t.isNonNull = false) :
    ofType kind t = .orNull (ofPresent kind t) := by
  rw [ofType, if_neg (ne_true_of_eq_false nullable)]

@[simp] theorem ofType_nonNull (kind : ScalarKind) (inner : WireType) :
    ofType kind (.nonNull inner) = ofPresent kind inner := rfl

theorem accepts_iff_inhabits {kind : ScalarKind} : kind.accepts j = true ↔
    Inhabits declared (ofKind kind).denoted j ∧ ∀ n, j = .number n → kind = .integer →
      ∃ i, n = .integer i ∧ i.toInt64?.isSome = true := by
  constructor
  · intro h
    constructor
    · unfold ScalarKind.accepts at h
      split at h
      · exact .string _
      · exact .number _
      · exact .number _
      · exact .boolean _
      · exact .unknown _
      · cases h
    · rintro n rfl rfl
      cases n with
      | integer i => exact ⟨i, rfl, h⟩
      | float x => cases h
  · rintro ⟨inhabits, integers⟩
    cases kind with
    | integer =>
      cases inhabits with
      | number n =>
        obtain ⟨i, rfl, hi⟩ := integers n rfl rfl
        exact hi
    | unknown => rfl
    | _ =>
      cases inhabits
      rfl

theorem not_inhabits_null {t : WireType} (nullable : t.isNonNull = false)
    (known : ∀ name, t = .named name → table.kindOf name ≠ .unknown) :
    ¬Inhabits declared (ofPresent (table.kindOf t.baseName) t).denoted .null := by
  cases t with
  | named name =>
    have hknown := known name rfl
    rw [ofPresent, WireType.baseName]
    generalize table.kindOf name = kind at hknown
    intro h
    cases kind <;> first | exact hknown rfl | cases h
  | list element =>
    rw [ofPresent_list]
    intro h
    cases h
  | nonNull inner => cases nullable

/-- A value fits a type exactly if it inhabits the type's TypeScript form and has what this form
leaves unsaid. -/
theorem fits_iff_inhabits {t : WireType} (canonical : t.Canonical) :
    t.Fits (table.kindOf t.baseName) j ↔
      Inhabits declared (ofType (table.kindOf t.baseName) t).denoted j ∧ t.Unsaid table j := by
  induction t generalizing j with
  | named name =>
    rw [WireType.unsaid_named, WireType.Fits, accepts_iff_inhabits, ofType_of_nullable _ rfl,
      Ty.denoted, inhabits_orNull, ofPresent, WireType.baseName]
    constructor
    · rintro (rfl | ⟨inhabits, integers⟩)
      · refine ⟨Or.inr rfl, ?_⟩
        intro _ heq
        cases heq
      · exact ⟨Or.inl inhabits, integers⟩
    · rintro ⟨inhabits | rfl, integers⟩
      · exact Or.inr ⟨inhabits, integers⟩
      · exact Or.inl rfl
  | list element ih =>
    rw [WireType.Fits, ofType_of_nullable _ rfl, ofPresent_list, Ty.denoted, inhabits_orNull,
      Ty.denoted, inhabits_array]
    constructor
    · rintro (rfl | ⟨items, rfl, each⟩)
      · exact ⟨Or.inr rfl, WireType.unsaid_list_null⟩
      · have hitems := fun item hitem => (ih canonical).mp (each item hitem)
        exact ⟨Or.inl ⟨items, rfl, fun item hitem => (hitems item hitem).1⟩,
          WireType.unsaid_items.mpr fun item hitem => (hitems item hitem).2⟩
    · rintro ⟨⟨items, rfl, each⟩ | rfl, unsaid⟩
      · refine Or.inr ⟨items, rfl, fun item hitem => (ih canonical).mpr ⟨each item hitem, ?_⟩⟩
        exact WireType.unsaid_items.mp unsaid item hitem
      · exact Or.inl rfl
  | nonNull inner ih =>
    obtain ⟨nullable, canonical⟩ := canonical
    rw [WireType.Fits, WireType.baseName, ih canonical, WireType.unsaid_nonNull,
      ofType_of_nullable _ nullable, Ty.denoted, inhabits_orNull, ofType_nonNull]
    constructor
    · rintro ⟨present, inhabits, unsaid⟩
      exact ⟨inhabits.resolve_right present, unsaid, fun _ _ _ => present⟩
    · rintro ⟨inhabits, unsaid, present⟩
      refine ⟨?_, Or.inl inhabits, unsaid⟩
      rintro rfl
      exact not_inhabits_null nullable (fun name heq hkind => present name heq hkind rfl) inhabits

theorem required_variableMembers (table : ScalarTable) (definitions : List VariableDefinition) :
    ∀ member ∈ (definitions.map (variableMember table)).map Member.denoted,
      member.optional = false := by
  intro member hmember
  rw [List.map_map] at hmember
  obtain ⟨d, -, rfl⟩ := List.mem_map.mp hmember
  rfl

/-- The name of the variables interface. -/
def variablesName (query : Query) (choices : Choices) : String :=
  freshName [rootName query choices]
    (choices.variablesName.getD (rootName query choices ++ "Variables"))

theorem declarations_eq_cons {query : Query} (choices : Choices)
    (declares : query.document.definitions ≠ []) :
    ∃ rest, declarations query choices = .interface (variablesName query choices)
      (query.document.definitions.map (variableMember query.table)) :: rest := by
  rw [declarations_eq, variablesPart, if_neg (fun h => declares (List.isEmpty_iff.mp h))]
  exact ⟨_, rfl⟩

end Typings

namespace Document

/-- Bindings hold a value for every variable that the document declares, and no other value. -/
def NamesBound (document : Document) (bindings : Bindings) : Prop :=
  ∀ name, name ∈ Keyed.keys bindings.entries ↔ ∃ d ∈ document.definitions, d.name = name

open TypeScript (Inhabits Resolves inhabits_interface)

variable {document : Document} {table : ScalarTable} {bindings : Bindings}

theorem namesBound_of_checkBindings (h : document.checkBindings table bindings = .ok ()) :
    document.NamesBound bindings := by
  obtain ⟨hbound, hknown⟩ := checkBindings_eq_ok.mp h
  intro name
  constructor
  · exact hknown name
  · rintro ⟨d, hd, rfl⟩
    obtain ⟨j, hj, -⟩ := hbound d hd
    exact List.mem_map_of_mem (Keyed.mem_of_lookup hj)

/-- Accepted bindings are the objects of the interface, up to what it leaves unsaid. -/
theorem checkBindings_iff_inhabits {declared : List TypeScript.Declaration} {name : String}
    (canonical : ∀ d ∈ document.definitions, d.type.Canonical)
    (resolved : Resolves declared name (.interface name
      ((document.definitions.map (Typings.variableMember table)).map Typings.Member.denoted))) :
    document.checkBindings table bindings = .ok () ↔
      document.NamesBound bindings ∧
      Inhabits declared (.reference name) (.object bindings.entries) ∧
      ∀ d ∈ document.definitions, ∀ j, bindings.get? d.name = some j → d.type.Unsaid table j := by
  rw [inhabits_interface resolved (Typings.required_variableMembers _ _), List.map_map,
    List.forall_mem_map]
  constructor
  · intro h
    obtain ⟨hbound, -⟩ := checkBindings_eq_ok.mp h
    refine ⟨namesBound_of_checkBindings h, ?_, ?_⟩
    · intro d hd
      obtain ⟨j, hj, hfits⟩ := hbound d hd
      exact ⟨j, hj, ((Typings.fits_iff_inhabits (canonical d hd)).mp hfits).1⟩
    · intro d hd j hj
      obtain ⟨j', hj', hfits⟩ := hbound d hd
      cases hj'.symm.trans hj
      have hparts : Inhabits declared _ j ∧ d.type.Unsaid table j :=
        (Typings.fits_iff_inhabits (canonical d hd)).mp hfits
      exact hparts.2
  · rintro ⟨hnames, hmembers, hunsaid⟩
    refine checkBindings_eq_ok.mpr ⟨?_, fun key => (hnames key).mp⟩
    intro d hd
    obtain ⟨j, hj, hinhabits⟩ := hmembers d hd
    exact ⟨j, hj,
      (Typings.fits_iff_inhabits (canonical d hd)).mpr ⟨hinhabits, hunsaid d hd j hj⟩⟩

end Document

namespace Query

open TypeScript (isTypeName Inhabits Resolves)
open Typings (variablesName)

/-- The text of the declarations begins with an interface that has a member for each variable, none
of them optional. Bindings are accepted exactly if they bind the declared names, inhabit this
interface, and have what it leaves unsaid. -/
theorem variables_interface_exact {root : Group} {operationName : Option String}
    {table : ScalarTable} {query : Query} (compiled : root.compile operationName table = .ok query)
    (declares : query.document.definitions ≠ []) (choices : Typings.Choices)
    (named : ∀ d ∈ Typings.declarations query choices, isTypeName d.name = true) :
    ∃ declared members, TypeScript.read (query.typings choices) = some declared ∧
      declared.head? = some (.interface (variablesName query choices) members) ∧
      Resolves declared (variablesName query choices)
        (.interface (variablesName query choices) members) ∧
      members.map TypeScript.Member.key =
        query.document.definitions.map VariableDefinition.name ∧
      (∀ member ∈ members, member.optional = false) ∧
      ∀ bindings : Bindings, query.document.checkBindings query.table bindings = .ok () ↔
        query.document.NamesBound bindings ∧
        Inhabits declared (.reference (variablesName query choices)) (.object bindings.entries) ∧
        ∀ d ∈ query.document.definitions, ∀ j, bindings.get? d.name = some j →
          d.type.Unsaid query.table j := by
  have hread := Typings.Declaration.read_textOfAll choices
    (Typings.readable_declarations compiled named)
  obtain ⟨rest, hfirst⟩ := Typings.declarations_eq_cons choices declares
  have hresolved := Typings.resolves_declarations query choices _
    (List.mem_of_mem_head? (hfirst ▸ List.head?_cons))
  have hhead := congrArg List.head? (congrArg (List.map Typings.Declaration.denoted) hfirst)
  rw [List.map_cons, List.head?_cons] at hhead
  rw [Typings.Declaration.name, Typings.Declaration.denoted] at hresolved
  have canonical : ∀ d ∈ query.document.definitions, d.type.Canonical := fun d hd =>
    (Group.definition_wellFormed compiled d hd).type.canonical
  refine ⟨_, _, hread, hhead, hresolved, ?_, Typings.required_variableMembers _ _,
    fun bindings => Document.checkBindings_iff_inhabits canonical hresolved⟩
  rw [List.map_map, List.map_map]
  rfl

/-- What is left of some sizes on a day. -/
def stockOnDay : Group :=
  .ofList [("stock", .scalar
    (some (.ofList none [("on", ⟨"$day", "Date!"⟩), ("of", ⟨"$sizes", "[Int]!"⟩)])) "Int")]

def stockQuery : Query :=
  { document := ⟨none, [⟨"day", .nonNull (.named "Date")⟩,
      ⟨"sizes", .nonNull (.list (.named "Int"))⟩], Node.selections stockOnDay.children⟩
    shape := Node.shape .builtin stockOnDay.children
    table := .builtin }

def stockTypings : String :=
  "export interface Day \x7b\n  day: unknown;\n  sizes: (number | null)[];\n\x7d\n\n" ++
    "export interface Query \x7b\n  stock: number | null;\n\x7d\n"

/-- Two sizes, one of them not known. -/
def someSizes : Bindings :=
  ⟨[("day", .string "2024-02-01"),
    ("sizes", .array [.number (.integer ⟨40, by decide, by decide⟩), .null])],
    by
      change ["day", "sizes"].Pairwise (· < ·)
      decide⟩

set_option maxRecDepth 4000 in
theorem variables_interface_exact_stock :
    stockOnDay.compile none .builtin = .ok stockQuery ∧
      stockQuery.typings { variablesName := some "Day" } = stockTypings ∧
      stockQuery.document.checkBindings .builtin someSizes = .ok () ∧
      ∃ declared, TypeScript.read stockTypings = some declared ∧
        Inhabits declared (.reference "Day") (.object someSizes.entries) := by
  have compiled : stockOnDay.compile none .builtin = .ok stockQuery := by with_unfolding_all rfl
  have htext : stockQuery.typings { variablesName := some "Day" } = stockTypings := by
    decide +kernel
  have accepted : stockQuery.document.checkBindings .builtin someSizes = .ok () := by rfl
  have hnames : (Typings.declarations stockQuery { variablesName := some "Day" }).map
      Typings.Declaration.name = ["Day", "Query"] := by rfl
  have named : ∀ d ∈ Typings.declarations stockQuery { variablesName := some "Day" },
      isTypeName d.name = true := by
    intro d hd
    have hname := List.mem_map_of_mem (f := Typings.Declaration.name) hd
    rw [hnames] at hname
    generalize d.name = name at hname ⊢
    decide +revert
  have hday : variablesName stockQuery { variablesName := some "Day" } = "Day" := by rfl
  obtain ⟨declared, members, hread, -, -, -, -, hexact⟩ :=
    variables_interface_exact compiled (by decide) { variablesName := some "Day" } named
  rw [htext] at hread
  rw [hday] at hexact
  obtain ⟨-, hinhabits, -⟩ := (hexact someSizes).mp accepted
  exact ⟨compiled, htext, accepted, declared, hread, hinhabits⟩

end Query

end WireQuery
