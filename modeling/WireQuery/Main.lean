import WireQuery.CommandLine.Execute

/-!
# The program

Runs a command line on the files and streams of the process.
-/

namespace WireQuery.CommandLine
set_option autoImplicit false

/-- The number of a failure, which some calls report below zero. -/
def failureCode (code : UInt32) : UInt32 := if code < 0x80000000 then code else 0 - code

/-- A failure of the file system in the words of messages. -/
def FileFailure.ofError : IO.Error → FileFailure
  | .noFileOrDirectory .. => .notFound
  | .inappropriateType _ code _ =>
    if failureCode code = 20 then .notDirectory else .isDirectory
  | .invalidArgument _ code details | .resourceExhausted _ code details
  | .permissionDenied _ code details =>
    if failureCode code = 36 then .nameTooLong
    else .other (details.capitalize ++ " (os error " ++ (failureCode code).toNat.repr ++ ")")
  | error => .other (toString error)

/-- All bytes of a stream. -/
partial def readStream (stream : IO.FS.Stream) (bytes : ByteArray) : IO ByteArray := do
  let more ← stream.read 65536
  if more.isEmpty then return bytes else readStream stream (bytes ++ more)

def readBytes : Source → IO ByteArray
  | .standardInput => do readStream (← IO.getStdin) .empty
  | .file path => IO.FS.readBinFile path

def answerRead (source : Source) : IO (Except FileFailure String) := do
  try
    match String.fromUTF8? (← readBytes source) with
    | some text => return .ok text
    | none => return .error .notText
  catch error => return .error (.ofError error)

def answerWrite (path content : String) : IO (Except FileFailure Unit) := do
  try
    IO.FS.writeFile path content
    return .ok ()
  catch error => return .error (.ofError error)

/-- Runs a session on the file system. -/
def Session.perform {α : Type} : Session α → IO α
  | .done result => return result
  | .read source next => do (next (← answerRead source)).perform
  | .write path content next => do (next (← answerWrite path content)).perform

def usage : String :=
  "Usage: wirequery [-v] <compile|check|types|request|reshape> <SPEC> [RESPONSE] [OPTIONS]"

end WireQuery.CommandLine

open WireQuery.CommandLine in
def main (arguments : List String) : IO UInt32 := do
  match Invocation.read arguments with
  | .help =>
    IO.println usage
    return 0
  | .rejected =>
    IO.eprintln usage
    return 2
  | .run command =>
    let outcome ← command.session.perform
    IO.print outcome.printed
    if let some error := outcome.error then IO.eprintln error
    return UInt32.ofNat outcome.exitCode
