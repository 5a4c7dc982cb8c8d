import WireQuery.Compile.Requirement
import WireQuery.Document.Printer
import WireQuery.Result.Shape

/-!
# Compiling specifications

A specification that passes its checks becomes a document and a result shape. Both are built from
the tree alone, key by key in the same order, so a selection's response key is that of the slot in
its place. The descriptors of variables are read last, in the order of first use.
-/

namespace WireQuery
set_option autoImplicit false

namespace Node

/-- The call of a node; a node without one is called plainly. -/
def callOrPlain (node : Node) : Call :=
  match node with
  | scalar call _ => call.getD .plain
  | group call _ => call.getD .plain

/-- The wire name of a node, which is its key unless it has another. -/
def wireName (key : String) (node : Node) : String := node.callOrPlain.wireName.getD key

def argument (entry : String × VariableRef) : Argument :=
  ⟨entry.1, entry.2.bareName?.getD entry.2.written⟩

/-- The field of a node. It has an alias if its wire name differs from the key. -/
def field (key : String) (node : Node) : Field :=
  let name := node.wireName key
  { name
    aliasName := if name = key then none else some key
    arguments := node.callOrPlain.arguments.map argument }

mutual

/-- The selection of a node under its key. -/
def selection (key : String) : Node → Selection
  | scalar call descriptor => .leaf ((scalar call descriptor).field key)
  | group call children => .nested ((group call children).field key) (selections children)

def selections : List (String × Node) → List Selection
  | [] => []
  | child :: rest => child.2.selection child.1 :: selections rest

end

mutual

/-- What stands in the slot of a node. -/
def content (table : ScalarTable) : Node → Content
  | scalar _ descriptor => .leaf (.ofDescriptor table descriptor)
  | group _ children => .nested (shape table children)

/-- The slots of a group. A value comes back under the response key of its field. -/
def shape (table : ScalarTable) : List (String × Node) → Shape
  | [] => []
  | child :: rest =>
    ⟨child.1, (child.2.field child.1).responseKey, child.2.content table⟩ :: shape table rest

end

/-- The service answers under the key itself, whatever the wire name. -/
@[simp] theorem responseKey_field (key : String) (node : Node) :
    (node.field key).responseKey = key := by
  by_cases h : node.wireName key = key <;> simp [field, Field.responseKey, h]

@[simp] theorem field_selection (key : String) (node : Node) :
    (node.selection key).field = node.field key := by
  cases node <;> rfl

@[simp] theorem responseKey_selection (key : String) (node : Node) :
    (node.selection key).responseKey = key := by
  simp [Selection.responseKey]

theorem selections_eq_map (children : List (String × Node)) :
    selections children = children.map fun child => child.2.selection child.1 := by
  induction children with
  | nil => rfl
  | cons child rest ih => rw [selections, List.map_cons, ih]

theorem shape_eq_map (table : ScalarTable) (children : List (String × Node)) :
    shape table children =
      children.map fun child => ⟨child.1, child.1, child.2.content table⟩ := by
  induction children with
  | nil => rfl
  | cons child rest ih => rw [shape, responseKey_field, List.map_cons, ih]

@[simp] theorem responseKeys_selections (children : List (String × Node)) :
    (selections children).map Selection.responseKey = Keyed.keys children := by
  simp [selections_eq_map, Keyed.keys, Function.comp_def]

@[simp] theorem keys_shape (table : ScalarTable) (children : List (String × Node)) :
    (shape table children).map Slot.key = Keyed.keys children := by
  rw [shape_eq_map, List.map_map]
  rfl

end Node

/-- A compiled specification, with the scalar table it was compiled with. -/
structure Query where
  document : Document
  shape : Shape
  table : ScalarTable
  deriving Repr

namespace Query

def text (query : Query) : String := query.document.text

def operationName (query : Query) : Option String := query.document.operationName

end Query

namespace VariableUses

def definition (entry : String × String) : Except CompileError VariableDefinition :=
  match WireType.read entry.2 with
  | .ok type => .ok ⟨entry.1, type⟩
  | .error malformed => .error (.malformedType malformed)

/-- The declarations of the variables in use. -/
def definitions (uses : VariableUses) : Except CompileError (List VariableDefinition) :=
  uses.entries.mapM definition

end VariableUses

namespace Group

def compile (root : Group) (operationName : Option String) (table : ScalarTable) :
    Except CompileError Query := do
  let uses ← Requirement.checkAll .empty (Requirement.ofGroup operationName root)
  let definitions ← uses.definitions
  let document : Document := ⟨operationName, definitions, Node.selections root.children⟩
  return ⟨document, Node.shape table root.children, table⟩

end Group

end WireQuery
