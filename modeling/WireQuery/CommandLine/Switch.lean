/-!
# Switches and positional arguments

How the words of a command line are told apart. A switch is written `--long` or `-s`; short ones
may be joined. A value follows in the next word, after `=`, or right after a short switch; a next
word that starts with `-` is no value unless it is `-` alone. All words after `--` are positional.
No switch with one value is given twice.
-/

namespace WireQuery.CommandLine
set_option autoImplicit false

/-- What a switch takes. -/
inductive Form where
  /-- Nothing; it is given once at most. -/
  | flag
  /-- Nothing; it may be repeated. -/
  | counted
  /-- Nothing; it asks for help. -/
  | help
  | text
  /-- The name of a file, which is not empty. -/
  | path
  | choice (options : List String)
  deriving DecidableEq, Repr

def Form.takesValue : Form → Bool
  | flag | counted | help => false
  | text | path | choice _ => true

def Form.admits : Form → String → Bool
  | path, value => !value.isEmpty
  | choice options, value => options.contains value
  | _, _ => true

structure Switch where
  long : String
  short : Option Char
  form : Form
  deriving DecidableEq, Repr

/-- Why the words of a command line were not taken. -/
inductive Stop where
  | help
  | rejected
  deriving DecidableEq, Repr

/-- What has been read from the words of a command line. -/
structure Words where
  flags : List String
  values : List (String × String)
  positionals : List String
  deriving Repr

namespace Words

def empty : Words := ⟨[], [], []⟩

def has (words : Words) (long : String) : Bool := words.flags.contains long

def value? (words : Words) (long : String) : Option String := words.values.lookup long

/-- Takes a switch without a value. -/
def addFlag (words : Words) (switch : Switch) : Except Stop Words :=
  match switch.form with
  | .help => .error .help
  | .counted => .ok words
  | .flag =>
    if words.has switch.long then .error .rejected
    else .ok { words with flags := switch.long :: words.flags }
  | _ => .error .rejected

/-- Takes a switch with its value. -/
def addValue (words : Words) (switch : Switch) (value : String) : Except Stop Words :=
  if (words.value? switch.long).isNone && switch.form.admits value then
    .ok { words with values := (switch.long, value) :: words.values }
  else .error .rejected

/-- Takes a positional argument, of which there are `limit` at most. Each names a file. -/
def addPositional (words : Words) (limit : Nat) (value : String) : Except Stop Words :=
  if words.positionals.length < limit && Form.path.admits value then
    .ok { words with positionals := words.positionals ++ [value] }
  else .error .rejected

end Words

/-- The text before the first `=`, and the text after it if there is one. -/
def splitAtEquals (cs : List Char) : String × Option String :=
  let name := String.ofList (cs.takeWhile (· ≠ '='))
  match cs.dropWhile (· ≠ '=') with
  | [] => (name, none)
  | _ :: value => (name, some (String.ofList value))

/-- A word after `--`. The switch that still waits for its value is given back. -/
def takeLong (switches : List Switch) (words : Words) (cs : List Char) :
    Except Stop (Words × Option Switch) := do
  let (name, value) := splitAtEquals cs
  match switches.find? (fun switch => switch.long == name), value with
  | none, _ => .error .rejected
  | some switch, none =>
    if switch.form.takesValue then return (words, some switch)
    else return (← words.addFlag switch, none)
  | some switch, some value =>
    if switch.form.takesValue then return (← words.addValue switch value, none)
    else .error .rejected

/-- A word of short switches, after its `-`. -/
def takeShort (switches : List Switch) (words : Words) :
    List Char → Except Stop (Words × Option Switch)
  | [] => .ok (words, none)
  | c :: rest => do
    match switches.find? (fun switch => switch.short == some c) with
    | none => .error .rejected
    | some switch =>
      if switch.form.takesValue then
        match rest with
        | [] => return (words, some switch)
        | '=' :: value => return (← words.addValue switch (String.ofList value), none)
        | value => return (← words.addValue switch (String.ofList value), none)
      else takeShort switches (← words.addFlag switch) rest

/-- Reads all words. `waiting` is a switch whose value comes next. -/
def readWords (switches : List Switch) (limit : Nat) (words : Words) (waiting : Option Switch) :
    List String → Except Stop Words
  | [] => if waiting.isNone then .ok words else .error .rejected
  | word :: rest => do
    match waiting, word.toList with
    | some _, '-' :: _ :: _ => .error .rejected
    | some switch, _ =>
      readWords switches limit (← words.addValue switch word) none rest
    | none, ['-', '-'] => rest.foldlM (fun words word => words.addPositional limit word) words
    | none, '-' :: '-' :: cs =>
      let (words, waiting) ← takeLong switches words cs
      readWords switches limit words waiting rest
    | none, '-' :: c :: cs =>
      let (words, waiting) ← takeShort switches words (c :: cs)
      readWords switches limit words waiting rest
    | none, _ => readWords switches limit (← words.addPositional limit word) none rest

end WireQuery.CommandLine
