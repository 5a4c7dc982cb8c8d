import WireQuery.CommandLine.Command
import WireQuery.CommandLine.Session
import WireQuery.Request.Run
import WireQuery.Scalar.Reader
import WireQuery.Spec.Reader
import WireQuery.Typings.Interfaces

/-!
# Executing commands

A command reads its inputs in a fixed order: the specification, the scalar table, and once both
are compiled the bindings or the response. The first failure ends it. What it prints is its
result, so a command that fails prints nothing.
-/

namespace WireQuery.CommandLine
set_option autoImplicit false

inductive CommandError where
  | read (path : String) (failure : FileFailure)
  | write (path : String) (failure : FileFailure)
  | json (path : String) (error : Json.Error)
  /-- Bindings that are no JSON object. -/
  | notAnObject (path : String)
  /-- More than one input is the standard input. -/
  | inputReused
  | compile (error : CompileError)
  | run (error : RunError)
  deriving DecidableEq, Repr

def CommandError.message : CommandError → String
  | read path failure => "failed to read " ++ path ++ ": " ++ failure.message
  | write path failure => "failed to write " ++ path ++ ": " ++ failure.message
  | json path error => "invalid JSON in " ++ path ++ ": " ++ error.message
  | notAnObject path => path ++ " must contain a JSON object"
  | inputReused => "stdin (`-`) can feed only one input"
  | compile error => error.message
  | run error => error.message

/-- A session that may fail. -/
abbrev Task (α : Type) := ExceptT CommandError Session α

namespace Task

/-- The text of an input. -/
def readText (path : String) : Task String := do
  match ← (Session.readSource (.ofPath path) : Session _) with
  | .ok text => return text
  | .error failure => throw (.read path failure)

/-- An input, by a reader of its text. -/
def load {α : Type} (reader : String → Except Json.Error α) (path : String) : Task α := do
  let text ← readText path
  match reader text with
  | .ok value => return value
  | .error error => throw (.json path error)

/-- Refuses inputs of which more than one is the standard input. -/
def checkInputs (paths : List (Option String)) : Task Unit :=
  if 1 < paths.countP (· = some "-") then throw .inputReused else return ()

/-- The builtin scalars, extended by a table if one is given. -/
def scalars : Option String → Task ScalarTable
  | none => return .builtin
  | some path => load ScalarTable.read path

/-- The query of a specification. -/
def query (spec : SpecSource) : Task Query := do
  checkInputs [spec.path, spec.scalars]
  let root ← load Group.read spec.path
  let table ← scalars spec.scalars
  match root.compile spec.operationName table with
  | .ok query => return query
  | .error error => throw (.compile error)

/-- The bindings of a request, none if no input holds them. -/
def bindings : Option String → Task Bindings
  | none => return .empty
  | some path => do
    match ← load Json.read path with
    | .object members => return .ofMembers members
    | _ => throw (.notAnObject path)

/-- A command, with what it prints. -/
def ofCommand : Command → Task String
  | .compile spec style => do
    let query ← query spec
    return query.document.write style ++ "\n"
  | .check spec => do
    let _ ← query spec
    return ""
  | .types spec choices output => do
    let query ← query spec
    let text := query.typings choices
    match output with
    | none => return text
    | some path =>
      match ← (Session.writeFile path text : Session _) with
      | .ok () => return ""
      | .error failure => throw (.write path failure)
  | .request spec input style => do
    checkInputs [spec.path, spec.scalars, input]
    let query ← query spec
    let bindings ← bindings input
    match query.send bindings with
    | .ok request => return request.write style ++ "\n"
    | .error error => throw (.run error)
  | .reshape spec response style => do
    checkInputs [spec.path, spec.scalars, response]
    let query ← query spec
    let answer ← load Json.read response
    match query.receive (.ok answer) with
    | .ok value => return value.write style ++ "\n"
    | .error error => throw (.run error)

end Task

/-- What a command leaves behind on the two output streams. -/
structure Outcome where
  printed : String
  error : Option String
  deriving DecidableEq, Repr

namespace Outcome

def ofResult : Except CommandError String → Outcome
  | .ok printed => ⟨printed, none⟩
  | .error error => ⟨"", some ("error: " ++ error.message)⟩

def exitCode (outcome : Outcome) : Nat := if outcome.error.isNone then 0 else 1

end Outcome

/-- The session of a command. -/
def Command.session (command : Command) : Session Outcome := do
  return .ofResult (← (Task.ofCommand command).run)

end WireQuery.CommandLine
