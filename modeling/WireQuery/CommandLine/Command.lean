import WireQuery.CommandLine.Switch
import WireQuery.Json.Printer
import WireQuery.Typings.Declaration

/-!
# Commands

The commands of the program and the command lines that ask for them.
-/

namespace WireQuery.CommandLine
set_option autoImplicit false

/-- Where a specification comes from, and how it is compiled. -/
structure SpecSource where
  path : String
  operationName : Option String
  scalars : Option String
  deriving Repr

inductive Command where
  /-- Writes the document. -/
  | compile (spec : SpecSource) (style : TextStyle)
  /-- Writes nothing. -/
  | check (spec : SpecSource)
  /-- Writes TypeScript declarations. -/
  | types (spec : SpecSource) (choices : Typings.Choices) (output : Option String)
  /-- Writes the body of a request. -/
  | request (spec : SpecSource) (bindings : Option String) (style : TextStyle)
  /-- Writes a reshaped response. -/
  | reshape (spec : SpecSource) (response : String) (style : TextStyle)
  deriving Repr

/-- What a command line asks for. -/
inductive Invocation where
  | run (command : Command)
  | help
  | rejected
  deriving Repr

/-- Switches that are taken everywhere. -/
def generalSwitches : List Switch :=
  [⟨"verbose", some 'v', .counted⟩, ⟨"help", some 'h', .help⟩]

def specSwitches : List Switch :=
  [⟨"name", some 'n', .text⟩, ⟨"scalars", none, .path⟩] ++ generalSwitches

def prettySwitch : Switch := ⟨"pretty", none, .flag⟩

def typesSwitches : List Switch :=
  [⟨"optional", none, .choice ["null", "questionmark"]⟩, ⟨"no-export", none, .flag⟩,
    ⟨"readonly", none, .flag⟩, ⟨"root-name", none, .text⟩, ⟨"variables-name", none, .text⟩,
    ⟨"output", some 'o', .path⟩] ++ specSwitches

def requestSwitches : List Switch := ⟨"vars", none, .path⟩ :: prettySwitch :: specSwitches

namespace Words

def spec (words : Words) (path : String) : SpecSource :=
  ⟨path, words.value? "name", words.value? "scalars"⟩

def style (words : Words) : TextStyle := if words.has "pretty" then .indented else .compact

def choices (words : Words) : Typings.Choices :=
  { exported := !words.has "no-export"
    rootName := words.value? "root-name"
    variablesName := words.value? "variables-name"
    optional := if words.value? "optional" = some "questionmark" then .questionMark else .null
    readOnly := words.has "readonly" }

end Words

/-- The name of a command, the words that may follow it, and the command they make up. -/
structure CommandForm where
  name : String
  switches : List Switch
  positionals : Nat
  build : Words → Option Command

def commandForms : List CommandForm :=
  [{ name := "compile"
     switches := prettySwitch :: specSwitches
     positionals := 1
     build := fun words =>
       match words.positionals with
       | [spec] => some (.compile (words.spec spec) words.style)
       | _ => none },
   { name := "check"
     switches := specSwitches
     positionals := 1
     build := fun words =>
       match words.positionals with
       | [spec] => some (.check (words.spec spec))
       | _ => none },
   { name := "types"
     switches := typesSwitches
     positionals := 1
     build := fun words =>
       match words.positionals with
       | [spec] => some (.types (words.spec spec) words.choices (words.value? "output"))
       | _ => none },
   { name := "request"
     switches := requestSwitches
     positionals := 1
     build := fun words =>
       match words.positionals with
       | [spec] => some (.request (words.spec spec) (words.value? "vars") words.style)
       | _ => none },
   { name := "reshape"
     switches := prettySwitch :: specSwitches
     positionals := 2
     build := fun words =>
       match words.positionals with
       | [spec, response] => some (.reshape (words.spec spec) response words.style)
       | _ => none }]

/-- The command that the words after its name make up. -/
def CommandForm.read (form : CommandForm) (rest : List String) : Invocation :=
  match readWords form.switches form.positionals .empty none rest with
  | .error .help => .help
  | .error .rejected => .rejected
  | .ok words =>
    match form.build words with
    | some command => .run command
    | none => .rejected

/-- What stands after the word `help`: nothing, or the name of one command. -/
def Invocation.ofHelp : List String → Invocation
  | [] => .help
  | [word] =>
    if word = "help" || commandForms.any (fun form => form.name == word) then .help
    else .rejected
  | _ => .rejected

/-- Reads a command line. Only general switches stand before the name of a command. -/
def Invocation.read : List String → Invocation
  | [] => .rejected
  | word :: rest =>
    match commandForms.find? (fun form => form.name == word) with
    | some form => form.read rest
    | none =>
      if word = "help" then .ofHelp rest
      else if word.startsWith "-" then
        match readWords generalSwitches 0 .empty none [word] with
        | .ok _ => if word = "--" then .rejected else Invocation.read rest
        | .error .help => .help
        | .error .rejected => .rejected
      else .rejected

end WireQuery.CommandLine
