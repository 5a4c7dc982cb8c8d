/-!
# Sessions

A session is a program that reads inputs and writes files. What it does next depends on what it
has read, and nothing else happens between two of its steps.
-/

namespace WireQuery.CommandLine
set_option autoImplicit false

/-- Where an input is read from. -/
inductive Source where
  | standardInput
  | file (path : String)
  deriving DecidableEq, Repr

/-- A single `-` stands for the standard input. -/
def Source.ofPath (path : String) : Source :=
  if path = "-" then .standardInput else .file path

/-- Why an input could not be read, or a file not be written. -/
inductive FileFailure where
  | notFound
  | notDirectory
  | isDirectory
  | nameTooLong
  /-- The bytes are no UTF-8. -/
  | notText
  | other (message : String)
  deriving DecidableEq, Repr

def FileFailure.message : FileFailure → String
  | notFound => "No such file or directory (os error 2)"
  | notDirectory => "Not a directory (os error 20)"
  | isDirectory => "Is a directory (os error 21)"
  | nameTooLong => "File name too long (os error 36)"
  | notText => "stream did not contain valid UTF-8"
  | other message => message

inductive Session (α : Type) where
  | done (result : α)
  | read (source : Source) (next : Except FileFailure String → Session α)
  | write (path content : String) (next : Except FileFailure Unit → Session α)

namespace Session

variable {α β : Type}

/-- Goes on with what a session gives. -/
def andThen (session : Session α) (next : α → Session β) : Session β :=
  match session with
  | done result => next result
  | read source rest => .read source fun answer => (rest answer).andThen next
  | write path content rest => .write path content fun answer => (rest answer).andThen next

instance : Monad Session where
  pure := .done
  bind := .andThen

/-- Reads one input. -/
def readSource (source : Source) : Session (Except FileFailure String) := .read source .done

/-- Writes one file. -/
def writeFile (path content : String) : Session (Except FileFailure Unit) :=
  .write path content .done

end Session

end WireQuery.CommandLine
