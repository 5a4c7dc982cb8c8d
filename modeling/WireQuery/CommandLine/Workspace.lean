import WireQuery.CommandLine.Session
import WireQuery.Keyed

/-!
# Workspaces

A workspace is a directory of files and an unread standard input. Paths lead from it name by
name, each of which has to be a directory except the last. Of the world outside little is known:
the directories above the workspace, the usual ones below the root, and an empty device. Running
a session in a workspace gives the session's result and the workspace as the session leaves it.
-/

namespace WireQuery.CommandLine
set_option autoImplicit false

structure Workspace where
  /-- The files by their paths from the directory. -/
  files : List (String × ByteArray)
  /-- What has been written outside of the directory, by path. -/
  outside : List (String × ByteArray)
  standardInput : ByteArray

/-- A directory that a path leads through. -/
inductive Place where
  /-- The workspace, or a directory in it by the names that lead there. -/
  | inside (names : List String)
  /-- A directory above the workspace. -/
  | above
  /-- A directory by the names that lead there from the root. -/
  | system (names : List String)
  deriving DecidableEq, Repr

namespace Place

def parent : Place → Place
  | inside [] => above
  | inside (name :: names) => inside (name :: names).dropLast
  | above => above
  | system names => system names.dropLast

def child (name : String) : Place → Place
  | inside names => inside (names ++ [name])
  | above => above
  | system names => system (names ++ [name])

end Place

/-- What a directory holds under a name. -/
inductive Entry where
  | directory
  | file (content : ByteArray)
  | absent

/-- What a path leads to: a directory, or a name in one, perhaps with a slash behind it. -/
inductive Target where
  | directory
  | entry (place : Place) (name : String) (slash : Bool)
  deriving DecidableEq, Repr

namespace Workspace

def ofFiles (files : List (String × ByteArray)) (standardInput : ByteArray) : Workspace :=
  ⟨files, [], standardInput⟩

/-- The directories below the root. -/
def systemDirectories : List String :=
  ["bin", "boot", "dev", "etc", "home", "lib", "media", "mnt", "opt", "proc", "root", "run",
    "sbin", "srv", "sys", "tmp", "usr", "var"]

/-- The names of a path from the workspace, as its files are kept. -/
def pathOf (names : List String) : String := "/".intercalate names

/-- Whether a file lies behind a path. -/
def holdsBehind (w : Workspace) (path : String) : Bool :=
  w.files.any fun file => (path ++ "/").toList.isPrefixOf file.1.toList

def entry (w : Workspace) (name : String) : Place → Entry
  | .inside names =>
    let path := pathOf (names ++ [name])
    match w.files.lookup path with
    | some content => .file content
    | none => if w.holdsBehind path then .directory else .absent
  | .above => .absent
  | .system [] => if systemDirectories.contains name then .directory else .absent
  | .system names => if names = ["dev"] ∧ name = "null" then .file .empty else .absent

/-- The most bytes of a name, and of a path. -/
def nameLimit : Nat := 255

def pathLimit : Nat := 4095

/-- Goes from a place through a name, which has to be a directory. -/
def enter (w : Workspace) (place : Place) (name : String) : Except FileFailure Place :=
  if name = "." then .ok place
  else if name = ".." then .ok place.parent
  else if nameLimit < name.utf8ByteSize then .error .nameTooLong
  else
    match w.entry name place with
    | .directory => .ok (place.child name)
    | .file _ => .error .notDirectory
    | .absent => .error .notFound

/-- Where a path leads. It starts at the root if it starts with a slash. -/
def target (w : Workspace) (path : String) : Except FileFailure Target := do
  let pieces := path.splitOn "/"
  let names := pieces.filter fun piece => !piece.isEmpty
  let rooted := pieces.head? = some ""
  match names.getLast? with
  | none => if path.isEmpty then .error .notFound else return .directory
  | some name =>
    if pathLimit < path.utf8ByteSize then .error .nameTooLong
    let place ← names.dropLast.foldlM w.enter (if rooted then .system [] else .inside [])
    if name = "." ∨ name = ".." then return .directory
    else if nameLimit < name.utf8ByteSize then .error .nameTooLong
    else return .entry place name (pieces.getLast? = some "")

def decode (bytes : ByteArray) : Except FileFailure String :=
  match String.fromUTF8? bytes with
  | some text => .ok text
  | none => .error .notText

/-- The text of a file. A slash behind its path asks for a directory. -/
def readFile (w : Workspace) (path : String) : Except FileFailure String := do
  match ← w.target path with
  | .directory => .error .isDirectory
  | .entry place name slash =>
    match w.entry name place with
    | .directory => .error .isDirectory
    | .file content => if slash then .error .notDirectory else decode content
    | .absent => .error .notFound

/-- Reads an input. The standard input is empty after it has been read. -/
def read (w : Workspace) : Source → Except FileFailure String × Workspace
  | .standardInput => (decode w.standardInput, { w with standardInput := .empty })
  | .file path => (w.readFile path, w)

/-- Puts a file where a path leads. -/
def store (w : Workspace) (path : String) (name : String) (content : ByteArray) :
    Place → Workspace
  | .inside names => { w with files := Keyed.insert (pathOf (names ++ [name])) content w.files }
  | .above | .system _ => { w with outside := Keyed.insert path content w.outside }

/-- Writes a file into a directory that is there. -/
def writeFile (w : Workspace) (path content : String) : Except FileFailure Workspace := do
  match ← w.target path with
  | .directory => .error .isDirectory
  | .entry place name slash =>
    if slash then .error .isDirectory
    match w.entry name place with
    | .directory => .error .isDirectory
    | .file _ | .absent => return w.store path name content.toUTF8 place

/-- Writes a file. A failure leaves the workspace as it is. -/
def write (w : Workspace) (path content : String) : Except FileFailure Unit × Workspace :=
  match w.writeFile path content with
  | .ok after => (.ok (), after)
  | .error failure => (.error failure, w)

end Workspace

/-- Runs a session in a workspace. -/
def Session.runIn {α : Type} (w : Workspace) : Session α → α × Workspace
  | .done result => (result, w)
  | .read source next =>
    let (answer, w) := w.read source
    (next answer).runIn w
  | .write path content next =>
    let (answer, w) := w.write path content
    (next answer).runIn w

end WireQuery.CommandLine
