import WireQuery.Proofs.Json.RoundTrip
import WireQuery.Proofs.Spec.Text
import WireQuery.Proofs.Spec.WellKeyed

/-!
# The written form of a specification

A specification is written as a JSON value by one rule for each kind of node, and what is built
entry by entry can be written and read back. The mark of an operation is also a key that a group
may have, so a nested group must have another key beside it; at the root and in the body of an
operation the mark is a key like any other.
-/

namespace WireQuery
set_option autoImplicit false

/-- A call that is put together by naming a field and binding arguments. -/
inductive Call.Built : Call → Prop where
  | plain : Built .plain
  | named {call : Call} (built : Built call) (wireName : String) : Built (call.named wireName)
  | bind {call : Call} (built : Built call) (argument : String) (v : VariableRef) :
      Built (call.bind argument v)

mutual

/-- A node that is put together from scalars, groups and calls. -/
inductive Node.Built : Node → Prop where
  | scalar (descriptor : String) : Node.Built (.scalar none descriptor)
  | group {g : Group} (built : Group.Built g) : Node.Built (.group none g.children)
  | operation {call : Call} {body : Node} (called : call.Built) (built : Node.Built body) :
      Node.Built (body.called call)

/-- A group to which nodes have been added one by one. -/
inductive Group.Built : Group → Prop where
  | empty : Group.Built .empty
  | insert {g : Group} {node : Node} (built : Group.Built g) (key : String)
      (each : Node.Built node) : Group.Built (g.insert key node)

end

theorem Node.Built.wellKeyed {node : Node} : node.Built → node.WellKeyed
  | .scalar _ => trivial
  | @Node.Built.group g _ => g.wellKeyed
  | @Node.Built.operation call _ _ built => Node.wellKeyed_called call built.wellKeyed

/-- Naming and binding reach every call. -/
theorem Call.built (call : Call) : call.Built := by
  obtain ⟨wireName, arguments, distinct⟩ := call
  induction arguments using List.reverseRecOn with
  | nil =>
    cases wireName with
    | none => exact .plain
    | some wireName => exact Built.named .plain wireName
  | append_singleton arguments argument ih =>
    obtain ⟨hdistinct, hkey⟩ := Keyed.distinctKeys_append_singleton.mp distinct
    have hlast : Call.bind ⟨wireName, arguments, hdistinct⟩ argument.1 argument.2 =
        ⟨wireName, arguments ++ [argument], distinct⟩ :=
      Call.ext rfl (Keyed.insert_of_not_mem hkey argument.2)
    rw [← hlast]
    exact .bind (ih hdistinct) argument.1 argument.2

theorem Group.built_of_children {children : List (String × Node)}
    (wellKeyed : (Node.group none children).WellKeyed)
    (each : ∀ child ∈ children, child.2.Built) : Group.Built ⟨children, wellKeyed⟩ := by
  induction children using List.reverseRecOn with
  | nil => exact .empty
  | append_singleton children child ih =>
    obtain ⟨hdistinct, hkey⟩ := Keyed.distinctKeys_append_singleton.mp wellKeyed.1
    obtain ⟨heach, hchild⟩ := List.forall_mem_append.mp each
    have hlastBuilt := hchild child (List.mem_singleton_self child)
    have hbefore : (Node.group none children).WellKeyed :=
      ⟨hdistinct, Node.childrenWellKeyed_iff.mpr fun entry hentry => (heach entry hentry).wellKeyed⟩
    have hlast : Group.insert ⟨children, hbefore⟩ child.1 child.2 =
        ⟨children ++ [child], wellKeyed⟩ :=
      Group.ext ((children_insert _ _ hlastBuilt.wellKeyed).trans
        (Keyed.insert_of_not_mem hkey child.2))
    rw [← hlast]
    exact .insert (ih hbefore heach) child.1 hlastBuilt

mutual

theorem Node.WellKeyed.built : ∀ {node : Node}, node.WellKeyed → node.Built
  | .scalar none descriptor, _ => .scalar descriptor
  | .scalar (some call) descriptor, _ => .operation call.built (.scalar descriptor)
  | .group none _, h => .group (Group.built_of_children h (Node.ChildrenWellKeyed.built h.2))
  | .group (some call) _, h =>
    .operation call.built
      (.group (Group.built_of_children h (Node.ChildrenWellKeyed.built h.2)))

theorem Node.ChildrenWellKeyed.built : ∀ {children : List (String × Node)},
    Node.ChildrenWellKeyed children → ∀ child ∈ children, child.2.Built
  | [], _ => nofun
  | _ :: _, h => List.forall_mem_cons.mpr
    ⟨Node.WellKeyed.built h.1, Node.ChildrenWellKeyed.built h.2⟩

end

/-- Adding nodes one by one reaches every group. -/
theorem Group.built (g : Group) : g.Built :=
  built_of_children g.wellKeyed (Node.ChildrenWellKeyed.built g.wellKeyed.2)

def VariableRef.toJson (v : VariableRef) : Json :=
  .array [.string v.written, .string v.descriptor]

/-- The parts of an operation. A field without a name of its own and an empty list of arguments are
left out. -/
def Call.parts (call : Call) (body : Json) : List (String × Json) :=
  (match call.wireName with
    | some wireName => [("field", .string wireName)]
    | none => []) ++
  (match call.arguments with
    | [] => []
    | arguments => [("args", .object (arguments.map fun a => (a.1, a.2.toJson)))]) ++
  [("body", body)]

def Call.toJson (call : Call) (body : Json) : Json :=
  .object [(Node.operationKey, .object (call.parts body))]

namespace Node

mutual

def toJson : Node → Json
  | scalar none descriptor => .string descriptor
  | scalar (some call) descriptor => call.toJson (.string descriptor)
  | group none children => .object (membersToJson children)
  | group (some call) children => call.toJson (.object (membersToJson children))

def membersToJson : List (String × Node) → List (String × Json)
  | [] => []
  | child :: rest => (child.1, child.2.toJson) :: membersToJson rest

end

mutual

/-- No group in the node has the mark of an operation as its only key. The group that an operation
selects may have it. -/
def Unmarked : Node → Prop
  | scalar _ _ => True
  | group none children => Keyed.keys children ≠ [operationKey] ∧ ChildrenUnmarked children
  | group (some _) children => ChildrenUnmarked children

def ChildrenUnmarked : List (String × Node) → Prop
  | [] => True
  | child :: rest => child.2.Unmarked ∧ ChildrenUnmarked rest

end

theorem childrenUnmarked_iff {children : List (String × Node)} :
    ChildrenUnmarked children ↔ ∀ child ∈ children, child.2.Unmarked := by
  induction children with
  | nil => simp [ChildrenUnmarked]
  | cons child rest ih => rw [ChildrenUnmarked, List.forall_mem_cons, ih]

@[simp] theorem keys_membersToJson (children : List (String × Node)) :
    Keyed.keys (membersToJson children) = Keyed.keys children := by
  induction children with
  | nil => rfl
  | cons child rest ih => exact congrArg (child.1 :: ·) ih

theorem numberless_call (call : Call) {body : Json} (h : body.Numberless) :
    (call.toJson body).Numberless := by
  have harguments : Json.Numberless (.object (call.arguments.map fun a => (a.1, a.2.toJson))) := by
    refine .object (List.forall_mem_map.mpr fun argument _ => .array ?_)
    exact List.forall_mem_cons.mpr ⟨.string _, List.forall_mem_singleton.mpr (.string _)⟩
  refine .object (List.forall_mem_singleton.mpr (.object ?_))
  intro member hmember
  rcases List.mem_append.mp hmember with hmember | hmember
  · rcases List.mem_append.mp hmember with hmember | hmember
    · split at hmember
      · rw [List.mem_singleton.mp hmember]
        exact .string _
      · cases hmember
    · split at hmember
      · cases hmember
      · rw [List.mem_singleton.mp hmember]
        exact harguments
  · rw [List.mem_singleton.mp hmember]
    exact h

mutual

theorem numberless_toJson : ∀ node : Node, node.toJson.Numberless
  | .scalar none descriptor => .string descriptor
  | .scalar (some call) descriptor => numberless_call call (.string descriptor)
  | .group none children => .object (numberless_membersToJson children)
  | .group (some call) children =>
    numberless_call call (.object (numberless_membersToJson children))

theorem numberless_membersToJson : ∀ (children : List (String × Node)),
    ∀ member ∈ membersToJson children, member.2.Numberless
  | [] => nofun
  | child :: rest => List.forall_mem_cons.mpr
    ⟨numberless_toJson child.2, numberless_membersToJson rest⟩

end

theorem argumentsDenote_toJson (arguments : List (String × VariableRef)) :
    ArgumentsDenote (.object (arguments.map fun a => (a.1, a.2.toJson))) arguments := by
  refine .object ?_
  induction arguments with
  | nil => exact .nil
  | cons argument rest ih => exact .cons ⟨rfl, rfl⟩ ih

theorem partsOnly_parts (call : Call) (body : Json) : PartsOnly (call.parts body) := by
  have hkeys : ∀ keys, Keyed.keys (call.parts body) = keys → keys.Nodup →
      (∀ key ∈ keys, key ∈ partNames) → PartsOnly (call.parts body) := by
    rintro _ rfl hdistinct hknown
    exact ⟨hdistinct, hknown⟩
  obtain ⟨_ | wireName, _ | ⟨argument, rest⟩, _⟩ := call
  · exact hkeys ["body"] rfl (by decide) (by decide)
  · exact hkeys ["args", "body"] rfl (by decide) (by decide)
  · exact hkeys ["field", "body"] rfl (by decide) (by decide)
  · exact hkeys ["field", "args", "body"] rfl (by decide) (by decide)

theorem operationDenotes_parts (call : Call) {body : Json} {node : Node}
    (hbody : BodyDenotes false body node) :
    OperationDenotes false (.object (call.parts body)) (node.called call) := by
  have only := partsOnly_parts call body
  have hcall := call.resolves_self
  have harguments := argumentsDenote_toJson call.arguments
  obtain ⟨_ | wireName, _ | ⟨argument, rest⟩, _⟩ := call
  · exact .parts only .none .none hcall rfl hbody
  · exact .parts only .none (.some harguments) hcall rfl hbody
  · exact .parts only (.some (.name wireName)) .none hcall rfl hbody
  · exact .parts only (.some (.name wireName)) (.some harguments) hcall rfl hbody

theorem form_call (call : Call) {body : Json} (hbody : BodyForm false body) :
    Form false (call.toJson body) := by
  obtain ⟨node, hnode⟩ := (settled false body).body.mpr hbody
  exact .operation ((settled false _).operation.mp ⟨_, operationDenotes_parts call hnode⟩)

mutual

theorem denotes_toJson : ∀ {node : Node}, node.WellKeyed → node.Unmarked →
    Denotes false node.toJson node
  | .scalar none descriptor, _, _ => .scalar descriptor
  | .scalar (some call) descriptor, _, _ =>
    .operation (operationDenotes_parts call (.scalar descriptor))
  | .group none children, h, hunmarked => by
    refine .group ?_ (childrenDenote_membersToJson h.2 hunmarked.2) (Keyed.resolves_self h.1)
    intro payload hmembers
    -- The mark alone would be the only key of the group.
    have hkeys := keys_membersToJson children
    rw [hmembers] at hkeys
    exact absurd hkeys.symm hunmarked.1
  | .group (some call) children, h, hunmarked => by
    have hbody : BodyDenotes false (.object (membersToJson children)) (.group none children) :=
      .group (childrenDenote_membersToJson h.2 hunmarked) (Keyed.resolves_self h.1)
    exact .operation (operationDenotes_parts call hbody)

theorem childrenDenote_membersToJson : ∀ {children : List (String × Node)},
    ChildrenWellKeyed children → ChildrenUnmarked children →
      ChildrenDenote false (membersToJson children) children
  | [], _, _ => .nil
  | _ :: _, h, hunmarked =>
    .cons (denotes_toJson h.1 hunmarked.1) (childrenDenote_membersToJson h.2 hunmarked.2)

end

mutual

theorem form_toJson : ∀ node : Node, Form false node.toJson
  | .scalar none descriptor => .scalar descriptor
  | .scalar (some call) descriptor => form_call call (.scalar descriptor)
  | .group none children => .group (forms_membersToJson children)
  | .group (some call) children => form_call call (.group (forms_membersToJson children))

theorem forms_membersToJson : ∀ (children : List (String × Node)),
    ∀ member ∈ membersToJson children, Form false member.2
  | [] => nofun
  | child :: rest => List.forall_mem_cons.mpr ⟨form_toJson child.2, forms_membersToJson rest⟩

end

/-- What the members denote, which is what they were written from wherever that is unmarked. -/
theorem exists_denoted {entries : List (String × Node)} (h : ChildrenWellKeyed entries) :
    ∃ children, ChildrenDenote false (membersToJson entries) children ∧
      List.Forall₂ (fun entry child => child.1 = entry.1 ∧
        (entry.2.Unmarked → child.2 = entry.2)) entries children := by
  induction entries with
  | nil => exact ⟨[], .nil, .nil⟩
  | cons entry rest ih =>
    obtain ⟨children, hchildren, hagree⟩ := ih h.2
    obtain ⟨node, hnode, hself⟩ : ∃ node, Denotes false entry.2.toJson node ∧
        (entry.2.Unmarked → node = entry.2) := by
      by_cases hunmarked : entry.2.Unmarked
      · exact ⟨entry.2, denotes_toJson h.1 hunmarked, fun _ => rfl⟩
      · obtain ⟨node, hnode⟩ := (settled false _).node.mpr (form_toJson entry.2)
        exact ⟨node, hnode, fun h => absurd h hunmarked⟩
    exact ⟨(entry.1, node) :: children, .cons hnode hchildren, .cons ⟨rfl, hself⟩ hagree⟩

end Node

namespace Group

def toJson (g : Group) : Json := .object (Node.membersToJson g.children)

/-- No nested group has the mark of an operation as its only key. The root may have it. -/
def Unmarked (g : Group) : Prop := Node.ChildrenUnmarked g.children

/-- The group after the insertions, one after the other. -/
def insertAll (entries : List (String × Node)) : Group :=
  entries.foldl (fun g entry => g.insert entry.1 entry.2) .empty

@[simp] theorem insertAll_eq_ofList (entries : List (String × Node)) :
    insertAll entries = .ofList entries := by
  induction entries using List.reverseRecOn with
  | nil => rfl
  | append_singleton entries entry ih =>
    have hlast : insertAll (entries ++ [entry]) =
        (insertAll entries).insert entry.1 entry.2 := List.foldl_append
    rw [hlast, ih, ofList_append_singleton]

/-- Every text that spells the value is read as the group, and both its texts do spell the value
if their nesting is within the limit. -/
structure ReadFrom (g : Group) (form : Json) : Prop where
  spelled : ∀ text, Json.parse text = .ok form → Group.read text = .ok g
  written : form.nesting ≤ Json.maxNesting → ∀ style, Group.read (form.write style) = .ok g

theorem exists_resolves_insertAll {entries : List (String × Node)}
    (hkeyed : Node.ChildrenWellKeyed entries) (hunmarked : (insertAll entries).Unmarked) :
    ∃ children, Node.ChildrenDenote false (Node.membersToJson entries) children ∧
      Keyed.Resolves children (insertAll entries).children := by
  obtain ⟨children, hdenote, hagree⟩ := Node.exists_denoted hkeyed
  rw [Unmarked, insertAll_eq_ofList, children_ofList hkeyed] at hunmarked
  rw [insertAll_eq_ofList, children_ofList hkeyed]
  have hresolves := Keyed.resolves_ofList entries
  refine ⟨children, hdenote, ?_, ?_⟩
  · have hkeys : Keyed.keys children = Keyed.keys entries := by
      clear hdenote hresolves hunmarked hkeyed
      induction hagree with
      | nil => rfl
      | cons hfirst _ ih => exact congrArg₂ List.cons hfirst.1 ih
    rw [hkeys]
    exact hresolves.order
  · intro key
    -- Only the last value of a key is kept, and what is kept is unmarked.
    refine (hresolves.last key).trans (Keyed.lookup_eq_of_forall₂
      (List.forall₂_reverse_iff.mpr hagree) fun node hnode => ?_).symm
    rw [← hresolves.last] at hnode
    exact Node.childrenUnmarked_iff.mp hunmarked _ (Keyed.mem_of_lookup hnode)

theorem readFrom_insertAll {entries : List (String × Node)}
    (hkeyed : Node.ChildrenWellKeyed entries) (hunmarked : (insertAll entries).Unmarked) :
    ReadFrom (insertAll entries) (.object (Node.membersToJson entries)) := by
  obtain ⟨children, hdenote, hresolves⟩ := exists_resolves_insertAll hkeyed hunmarked
  have hspelled : ∀ text, Json.parse text = .ok (.object (Node.membersToJson entries)) →
      Group.read text = .ok (insertAll entries) := by
    intro text hparse
    have hspells : SpelledBy false text (insertAll entries) :=
      ⟨_, children, hparse, hdenote, hresolves⟩
    exact read_eq_ok.mpr hspells.withArrays
  refine ⟨hspelled, fun hnesting style => hspelled _ ?_⟩
  exact Json.parse_write (.object (Node.numberless_membersToJson entries)) hnesting style

/-- A group is read back from its written form, unless a nested group has the mark as its only key.
Insertions that are written as the members of one object are read as the group after
the insertions, repeated keys included. -/
theorem read_written :
    (∀ root : Group, root.Unmarked → ReadFrom root root.toJson) ∧
    ∀ entries : List (String × Node), (∀ entry ∈ entries, entry.2.Built) →
      (insertAll entries).Unmarked →
      ReadFrom (insertAll entries) (.object (Node.membersToJson entries)) := by
  constructor
  · intro root unmarked
    have hroot : insertAll root.children = root :=
      (insertAll_eq_ofList root.children).trans root.ofList_children
    have hread := readFrom_insertAll root.wellKeyed.2 (hroot.symm ▸ unmarked)
    rwa [hroot] at hread
  · intro entries built unmarked
    have hkeyed := Node.childrenWellKeyed_iff.mpr fun entry hentry => (built entry hentry).wellKeyed
    exact readFrom_insertAll hkeyed unmarked

/-- The mark as a key of the root, beside another key, and alone under an operation. -/
def keysNamedAsMark : Group :=
  .ofList [("$op", .scalar none "Int"),
    ("beside", .group none [("$op", .scalar none "ID"), ("body", .scalar none "Int")]),
    ("nothing", .group none []),
    ("owner", .group
      (some (.ofList (some "user") [("id", ⟨"$id", "ID!"⟩), ("at", ⟨"$day", "Date"⟩)]))
      [("$op", .scalar none "Int")])]

/-- The first value of `a` has the mark as its only key and is written as an operation is. -/
def overwritten : List (String × Node) :=
  [("a", .group none [("$op", .group none [("body", .scalar none "Int")])]),
    ("b", .group none []), ("a", .scalar none "ID")]

theorem read_written_mark :
    Group.read (keysNamedAsMark.toJson.write .indented) = .ok keysNamedAsMark ∧
      Group.read ((Json.object (Node.membersToJson overwritten)).write .compact) =
        .ok (.ofList [("a", .scalar none "ID"), ("b", .group none [])]) := by
  have unmarked : keysNamedAsMark.Unmarked :=
    ⟨trivial, ⟨by decide, trivial, trivial, trivial⟩, ⟨by decide, trivial⟩, ⟨trivial, trivial⟩,
      trivial⟩
  have each : ∀ entry ∈ overwritten, entry.2.Built := by
    apply Node.ChildrenWellKeyed.built
    simp [overwritten, Node.WellKeyed, Node.ChildrenWellKeyed]
  have kept : (insertAll overwritten).Unmarked :=
    ⟨trivial, ⟨by decide, trivial⟩, trivial⟩
  exact ⟨(read_written.1 _ unmarked).written (by decide) .indented,
    (read_written.2 _ each kept).written (by decide) .compact⟩

/-- A nested group whose only key is the mark may be taken for an operation. -/
example : Group.read "\x7b\"a\":\x7b\"$op\":\x7b\"body\":\"Int\"\x7d\x7d\x7d" =
    .ok (.ofList [("a", .scalar (some .plain) "Int")]) := by
  simp only [Group.read, Json.readText, String.reduceToList]
  rfl

end Group

end WireQuery
