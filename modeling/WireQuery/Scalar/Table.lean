import WireQuery.Keyed
import WireQuery.Scalar.Kind

/-!
# Scalar tables

A table gives named types their kinds, each name one. Its entries have no order: two tables are the
same when they hold the same kinds under the same names. A name that is not in the table is of
unknown kind.
-/

namespace WireQuery
set_option autoImplicit false

structure ScalarTable where
  entries : List (String × ScalarKind)
  distinct : Keyed.DistinctKeys entries
  deriving Repr

namespace ScalarTable

def empty : ScalarTable := ⟨[], Keyed.distinctKeys_nil⟩

/-- The scalars that every service has. -/
def builtin : ScalarTable :=
  ⟨[("String", .text), ("ID", .text), ("Int", .integer), ("Float", .number),
    ("Number", .number), ("Boolean", .boolean)], by decide⟩

def insert (table : ScalarTable) (name : String) (kind : ScalarKind) : ScalarTable :=
  ⟨Keyed.insert name kind table.entries, Keyed.distinctKeys_insert table.distinct⟩

/-- Inserts in order, so the last of several kinds for a name stays. -/
def extend (table : ScalarTable) (pairs : List (String × ScalarKind)) : ScalarTable :=
  pairs.foldl (fun table pair => table.insert pair.1 pair.2) table

def get? (table : ScalarTable) (name : String) : Option ScalarKind := table.entries.lookup name

def kindOf (table : ScalarTable) (name : String) : ScalarKind :=
  (table.get? name).getD .unknown

def size (table : ScalarTable) : Nat := table.entries.length

def isEmpty (table : ScalarTable) : Bool := table.entries.isEmpty

/-- Whether both tables hold the same kinds under the same names. -/
def same (a b : ScalarTable) : Bool :=
  a.size == b.size && a.entries.all (fun entry => b.get? entry.1 == some entry.2)

@[simp] theorem get?_insert (table : ScalarTable) (name other : String) (kind : ScalarKind) :
    (table.insert name kind).get? other = if other = name then some kind else table.get? other :=
  Keyed.lookup_insert name other kind table.entries

end ScalarTable

end WireQuery
