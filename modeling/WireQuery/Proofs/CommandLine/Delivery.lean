import WireQuery.Proofs.CommandLine.Inputs

/-!
# Delivery of results

A command reads its inputs, works out its result from their texts, and only then delivers it: it
prints the result or writes it to a file. So a command that fails has printed nothing and has
changed no file.
-/

namespace WireQuery.CommandLine
set_option autoImplicit false

/-! ## Results -/

/-- The query of a specification, by its text and the text of its scalar table. -/
def SpecSource.Compiles (spec : SpecSource) (text : String) (scalars : Option String)
    (query : Query) : Prop :=
  ∃ root table, Group.read text = .ok root ∧ TableOf scalars table ∧
    root.compile spec.operationName table = .ok query

/-- The result of a command, by the texts of its inputs. The result of a check is empty. -/
inductive Command.Gives : Command → List (Option String) → String → Prop
  | compile {spec : SpecSource} {text : String} {scalars : Option String} {query : Query}
      (style : TextStyle) (compiles : spec.Compiles text scalars query) :
      Gives (.compile spec style) [some text, scalars] (query.document.write style ++ "\n")
  | check {spec : SpecSource} {text : String} {scalars : Option String} {query : Query}
      (compiles : spec.Compiles text scalars query) :
      Gives (.check spec) [some text, scalars] ""
  | types {spec : SpecSource} {text : String} {scalars : Option String} {query : Query}
      (choices : Typings.Choices) (output : Option String)
      (compiles : spec.Compiles text scalars query) :
      Gives (.types spec choices output) [some text, scalars] (query.typings choices)
  | request {spec : SpecSource} {text : String} {scalars vars : Option String} {query : Query}
      {bindings : Bindings} {request : Request} (input : Option String) (style : TextStyle)
      (compiles : spec.Compiles text scalars query) (bound : BindingsOf vars bindings)
      (sent : query.send bindings = .ok request) :
      Gives (.request spec input style) [some text, scalars, vars] (request.write style ++ "\n")
  | reshape {spec : SpecSource} {text : String} {scalars : Option String} {query : Query}
      {content : String} {answer : Json} {value : Value} (response : String) (style : TextStyle)
      (compiles : spec.Compiles text scalars query) (read : Json.read content = .ok answer)
      (received : query.receive (.ok answer) = .ok value) :
      Gives (.reshape spec response style) [some text, scalars, some content]
        (value.write style ++ "\n")

/-- The file that a command writes its result to. -/
def Command.output : Command → Option String
  | types _ _ output => output
  | compile _ _ | check _ | request _ _ _ | reshape _ _ _ => none

namespace World

variable {σ : Type}

/-- A command reads its inputs and has a result. -/
def Yields (world : World σ) (s : σ) (command : Command) (result : String) (s' : σ) : Prop :=
  ReadOnce command.inputs ∧
    ∃ texts, world.Reads s command.inputs texts s' ∧ command.Gives texts result

/-- A result is printed, or the whole of it is written to a file and nothing is printed. -/
inductive Delivers (world : World σ) (s : σ) (result : String) :
    Option String → String → σ → Prop
  | printed : Delivers world s result none result s
  | written {path : String} {s' : σ} (write : world.write s path result = (.ok (), s')) :
      Delivers world s result (some path) "" s'

variable {world : World σ} {s s' : σ}

theorem attempt_query_eq_ok {spec : SpecSource} {query : Query} :
    world.attempt s (Task.query spec) = (.ok query, s') ↔ ReadOnce [spec.path, spec.scalars] ∧
      ∃ text scalars, world.Reads s [some spec.path, spec.scalars] [some text, scalars] s' ∧
        spec.Compiles text scalars query := by
  rw [Task.query, attempt_bind_eq_ok]
  simp only [attempt_bind_eq_ok, attempt_checkInputs_eq_ok, attempt_load_eq_ok,
    attempt_scalars_eq_ok]
  constructor
  · rintro ⟨_, _, ⟨once, rfl⟩, root, mid', ⟨text, hread, hroot⟩, table, mid'',
      ⟨scalars, hscalars, htable⟩, hending⟩
    split at hending
    next compiled hcompile =>
      cases hending
      refine ⟨once, text, scalars, ?_, root, table, hroot, htable, hcompile⟩
      exact .read hread hscalars
    next => cases hending
  · rintro ⟨once, text, scalars, hreads, root, table, hroot, htable, hcompile⟩
    cases hreads with
    | @read _ mid _ _ _ _ _ hread hscalars =>
      refine ⟨(), s, ⟨once, rfl⟩, root, mid, ⟨text, hread, hroot⟩, table, s',
        ⟨scalars, hscalars, htable⟩, ?_⟩
      rw [hcompile]
      rfl

theorem attempt_compile_eq_ok {spec : SpecSource} {style : TextStyle} {printed : String} :
    world.attempt s (Task.ofCommand (.compile spec style)) = (.ok printed, s') ↔
      world.Yields s (.compile spec style) printed s' := by
  rw [Task.ofCommand, attempt_bind_eq_ok]
  simp only [attempt_query_eq_ok]
  constructor
  · rintro ⟨query, _, ⟨once, text, scalars, hreads, compiles⟩, ⟨⟩⟩
    exact ⟨once, _, hreads, .compile style compiles⟩
  · rintro ⟨once, _, hreads, gives⟩
    cases gives with
    | compile _ compiles => exact ⟨_, s', ⟨once, _, _, hreads, compiles⟩, rfl⟩

theorem attempt_check_eq_ok {spec : SpecSource} {printed : String} :
    world.attempt s (Task.ofCommand (.check spec)) = (.ok printed, s') ↔
      world.Yields s (.check spec) printed s' := by
  rw [Task.ofCommand, attempt_bind_eq_ok]
  simp only [attempt_query_eq_ok]
  constructor
  · rintro ⟨query, _, ⟨once, text, scalars, hreads, compiles⟩, ⟨⟩⟩
    exact ⟨once, _, hreads, .check compiles⟩
  · rintro ⟨once, _, hreads, gives⟩
    cases gives with
    | check compiles => exact ⟨_, s', ⟨once, _, _, hreads, compiles⟩, rfl⟩

/-- A command with an input of its own compiles its specification before it reads that input. -/
theorem attempt_checked_query_eq_ok {α : Type} {spec : SpecSource} {input : Option String}
    {next : Query → Task α} {a : α} :
    world.attempt s (Task.checkInputs [some spec.path, spec.scalars, input] >>= fun _ =>
        Task.query spec >>= next) = (.ok a, s') ↔
      ReadOnce [some spec.path, spec.scalars, input] ∧ ∃ text scalars query mid,
        world.Reads s [some spec.path, spec.scalars] [some text, scalars] mid ∧
          spec.Compiles text scalars query ∧ world.attempt mid (next query) = (.ok a, s') := by
  simp only [attempt_bind_eq_ok, attempt_checkInputs_eq_ok, attempt_query_eq_ok]
  constructor
  · rintro ⟨_, _, ⟨once, rfl⟩, query, mid, ⟨-, text, scalars, hreads, compiles⟩, hnext⟩
    exact ⟨once, text, scalars, query, mid, hreads, compiles, hnext⟩
  · rintro ⟨once, text, scalars, query, mid, hreads, compiles, hnext⟩
    exact ⟨(), s, ⟨once, rfl⟩, query, mid, ⟨once.left, text, scalars, hreads, compiles⟩, hnext⟩

theorem attempt_request_eq_ok {spec : SpecSource} {input : Option String} {style : TextStyle}
    {printed : String} :
    world.attempt s (Task.ofCommand (.request spec input style)) = (.ok printed, s') ↔
      world.Yields s (.request spec input style) printed s' := by
  rw [Task.ofCommand, attempt_checked_query_eq_ok]
  simp only [attempt_bind_eq_ok, attempt_bindings_eq_ok]
  constructor
  · rintro ⟨once, text, scalars, query, mid, hspec, compiles, bindings, _, ⟨vars, hvars, bound⟩,
      hending⟩
    split at hending
    next request sent =>
      cases hending
      refine ⟨once, [some text, scalars, vars], ?_, .request input style compiles bound sent⟩
      exact reads_after_iff.mpr ⟨mid, hspec, hvars⟩
    next => cases hending
  · rintro ⟨once, _, hreads, gives⟩
    cases gives with
    | @request _ _ _ vars _ _ _ _ _ compiles bound sent =>
      obtain ⟨mid, hspec, hvars⟩ := reads_after_iff.mp hreads
      refine ⟨once, _, _, _, mid, hspec, compiles, _, s', ⟨vars, hvars, bound⟩, ?_⟩
      rw [sent]
      rfl

theorem attempt_reshape_eq_ok {spec : SpecSource} {response : String} {style : TextStyle}
    {printed : String} :
    world.attempt s (Task.ofCommand (.reshape spec response style)) = (.ok printed, s') ↔
      world.Yields s (.reshape spec response style) printed s' := by
  rw [Task.ofCommand, attempt_checked_query_eq_ok]
  simp only [attempt_bind_eq_ok, attempt_load_eq_ok]
  constructor
  · rintro ⟨once, text, scalars, query, mid, hspec, compiles, answer, _,
      ⟨content, hresponse, read⟩, hending⟩
    split at hending
    next value received =>
      cases hending
      refine ⟨once, [some text, scalars, some content], ?_,
        .reshape response style compiles read received⟩
      exact reads_after_iff.mpr ⟨mid, hspec, .read hresponse (.nil _)⟩
    next => cases hending
  · rintro ⟨once, _, hreads, gives⟩
    cases gives with
    | @reshape _ _ _ _ content _ _ _ _ compiles read received =>
      obtain ⟨mid, hspec, hresponse⟩ := reads_after_iff.mp hreads
      obtain ⟨_, ⟨⟩, hresponse⟩ := reads_some_iff.mp hresponse
      refine ⟨once, _, _, _, mid, hspec, compiles, _, s', ⟨content, hresponse, read⟩, ?_⟩
      rw [received]
      rfl

/-- The end of a command that writes its result to a file. -/
theorem attempt_write (path text : String) :
    world.attempt s (do
      match ← (Session.writeFile path text : Session _) with
      | .ok () => return ""
      | .error failure => throw (.write path failure) : Task String) =
      (((world.write s path text).1.mapError (.write path)).map fun _ => "",
        (world.write s path text).2) := by
  change world.run (world.write s path text).2 _ = _
  cases (world.write s path text).1 <;> rfl

theorem attempt_types_eq_ok {spec : SpecSource} {choices : Typings.Choices}
    {output : Option String} {printed : String} :
    world.attempt s (Task.ofCommand (.types spec choices output)) = (.ok printed, s') ↔
      ∃ result mid, world.Yields s (.types spec choices output) result mid ∧
        world.Delivers mid result output printed s' := by
  rw [Task.ofCommand, attempt_bind_eq_ok]
  simp only [attempt_query_eq_ok]
  constructor
  · rintro ⟨query, mid, ⟨once, text, scalars, hreads, compiles⟩, hending⟩
    have yields : world.Yields s (.types spec choices output) (query.typings choices) mid :=
      ⟨once, _, hreads, .types choices output compiles⟩
    refine ⟨_, mid, yields, ?_⟩
    cases output with
    | none =>
      cases hending
      exact .printed
    | some path =>
      have hended := (attempt_write path _).symm.trans hending
      rcases hwrite : world.write mid path (query.typings choices) with ⟨_ | _, after⟩
      · rw [hwrite] at hended
        cases hended
      · rw [hwrite] at hended
        cases hended
        exact .written hwrite
  · rintro ⟨_, mid, ⟨once, _, hreads, gives⟩, delivers⟩
    cases gives with
    | types _ _ compiles =>
      refine ⟨_, mid, ⟨once, _, _, hreads, compiles⟩, ?_⟩
      cases delivers with
      | printed => rfl
      | written write =>
        refine (attempt_write _ _).trans ?_
        rw [write]
        rfl

theorem exists_delivers_none_iff {command : Command} {printed : String} :
    (∃ result mid, world.Yields s command result mid ∧
      world.Delivers mid result none printed s') ↔ world.Yields s command printed s' := by
  constructor
  · rintro ⟨_, _, yields, ⟨⟩⟩
    exact yields
  · intro yields
    exact ⟨printed, s', yields, .printed⟩

/-- A command succeeds if and only if it has a result and the result can be delivered. -/
theorem attempt_ofCommand_eq_ok {command : Command} {printed : String} :
    world.attempt s (Task.ofCommand command) = (.ok printed, s') ↔
      ∃ result mid, world.Yields s command result mid ∧
        world.Delivers mid result command.output printed s' := by
  cases command with
  | compile spec style => rw [attempt_compile_eq_ok, Command.output, exists_delivers_none_iff]
  | check spec => rw [attempt_check_eq_ok, Command.output, exists_delivers_none_iff]
  | types spec choices output => exact attempt_types_eq_ok
  | request spec input style => rw [attempt_request_eq_ok, Command.output, exists_delivers_none_iff]
  | reshape spec response style =>
    rw [attempt_reshape_eq_ok, Command.output, exists_delivers_none_iff]

end World

/-! ## Reading without writing -/

/-- A session that writes nothing, whatever it reads. -/
def Session.ReadsOnly {α : Type} : Session α → Prop
  | .done _ => True
  | .read _ next => ∀ answer, (next answer).ReadsOnly
  | .write _ _ _ => False

theorem Session.ReadsOnly.bind {α β : Type} {session : Session α} {next : α → Session β}
    (h : session.ReadsOnly) (hnext : ∀ a, (next a).ReadsOnly) : (session >>= next).ReadsOnly := by
  induction session with
  | done result => exact hnext result
  | read source rest ih =>
    intro answer
    exact ih answer (h answer)
  | write path content rest ih => cases h

namespace Task

variable {α β : Type}

/-- A task that writes nothing, whatever it reads. -/
def ReadsOnly (task : Task α) : Prop := Session.ReadsOnly task.run

theorem ReadsOnly.bind {task : Task α} {next : α → Task β} (h : task.ReadsOnly)
    (hnext : ∀ a, (next a).ReadsOnly) : (task >>= next).ReadsOnly := by
  rw [ReadsOnly, ExceptT.run_bind]
  apply Session.ReadsOnly.bind h
  intro result
  cases result with
  | error e => trivial
  | ok a => exact hnext a

theorem readsOnly_readText (path : String) : (readText path).ReadsOnly := by
  intro answer
  cases answer <;> trivial

theorem readsOnly_load (reader : String → Except Json.Error α) (path : String) :
    (load reader path).ReadsOnly := by
  apply (readsOnly_readText path).bind
  intro text
  split <;> trivial

theorem readsOnly_checkInputs (paths : List (Option String)) : (checkInputs paths).ReadsOnly := by
  unfold checkInputs
  split <;> trivial

theorem readsOnly_scalars (path : Option String) : (scalars path).ReadsOnly := by
  cases path with
  | none => trivial
  | some path => exact readsOnly_load _ path

theorem readsOnly_query (spec : SpecSource) : (query spec).ReadsOnly := by
  apply (readsOnly_checkInputs _).bind
  intro _
  apply (readsOnly_load _ _).bind
  intro root
  apply (readsOnly_scalars _).bind
  intro table
  split <;> trivial

theorem readsOnly_bindings (path : Option String) : (bindings path).ReadsOnly := by
  cases path with
  | none => trivial
  | some path =>
    apply (readsOnly_load _ path).bind
    intro value
    split <;> trivial

/-- Only a command with an output file writes. -/
theorem readsOnly_ofCommand {command : Command} (h : command.output = none) :
    (ofCommand command).ReadsOnly := by
  cases command with
  | compile spec style =>
    apply (readsOnly_query spec).bind
    intro query
    trivial
  | check spec =>
    apply (readsOnly_query spec).bind
    intro query
    trivial
  | types spec choices output =>
    obtain rfl : output = none := h
    apply (readsOnly_query spec).bind
    intro query
    trivial
  | request spec input style =>
    apply (readsOnly_checkInputs _).bind
    intro _
    apply (readsOnly_query spec).bind
    intro query
    apply (readsOnly_bindings input).bind
    intro bindings
    split <;> trivial
  | reshape spec response style =>
    apply (readsOnly_checkInputs _).bind
    intro _
    apply (readsOnly_query spec).bind
    intro query
    apply (readsOnly_load _ response).bind
    intro answer
    split <;> trivial

end Task

/-! ## File systems -/

/-- A world in which reading changes no file, and neither does a write that fails. -/
structure FileSystem (σ φ : Type) extends World σ where
  files : σ → φ
  files_read (s : σ) (source : Source) : files (read s source).2 = files s
  files_write {s s' : σ} {path content : String} {failure : FileFailure}
    (fails : write s path content = (.error failure, s')) : files s' = files s

/-- A workspace is a file system. Its files are those in the directory and those written outside. -/
def Workspace.fileSystem :
    FileSystem Workspace (List (String × ByteArray) × List (String × ByteArray)) where
  toWorld := World.workspace
  files w := (w.files, w.outside)
  files_read w source := by cases source <;> rfl
  files_write {w w' path content failure} fails := by
    have heq : w.write path content = (.error failure, w') := fails
    unfold Workspace.write at heq
    split at heq
    · cases heq
    · cases heq
      rfl

namespace FileSystem

variable {σ φ : Type} (disk : FileSystem σ φ)

theorem files_run {α : Type} {session : Session α} (h : session.ReadsOnly) (s : σ) :
    disk.files (disk.run s session).2 = disk.files s := by
  induction session generalizing s with
  | done result => rfl
  | read source next ih =>
    rw [← disk.files_read s source]
    exact ih _ (h _) _
  | write path content next ih => cases h

theorem files_reads {s s' : σ} {paths texts : List (Option String)}
    (h : disk.Reads s paths texts s') : disk.files s' = disk.files s := by
  induction h with
  | nil => rfl
  | skip rest ih => exact ih
  | @read s mid s' path text paths texts answer rest ih =>
    have hmid : (disk.read s (.ofPath path)).2 = mid := congrArg Prod.snd answer
    rw [ih, ← hmid, disk.files_read]

theorem files_attempt {α : Type} {task : Task α} (h : task.ReadsOnly) (s : σ) :
    disk.files (disk.attempt s task).2 = disk.files s :=
  disk.files_run h s

theorem files_yields {s s' : σ} {command : Command} {result : String}
    (h : disk.Yields s command result s') : disk.files s' = disk.files s := by
  obtain ⟨-, texts, hreads, -⟩ := h
  exact disk.files_reads hreads

theorem files_attempt_types_error {s s' : σ} {spec : SpecSource} {choices : Typings.Choices}
    {path : String} {e : CommandError}
    (h : disk.attempt s (Task.ofCommand (.types spec choices (some path))) = (.error e, s')) :
    disk.files s' = disk.files s := by
  have hquery := disk.files_attempt (Task.readsOnly_query spec) s
  rcases hattempt : disk.attempt s (Task.query spec) with ⟨failure | query, mid⟩
  · rw [hattempt] at hquery
    rw [Task.ofCommand, World.attempt_bind_error hattempt] at h
    cases h
    exact hquery
  · rw [hattempt] at hquery
    rw [Task.ofCommand, World.attempt_bind_ok hattempt] at h
    have hended := (World.attempt_write path _).symm.trans h
    rcases hwrite : disk.write mid path (query.typings choices) with ⟨failure | _, after⟩
    · rw [hwrite] at hended
      cases hended
      exact (disk.files_write hwrite).trans hquery
    · rw [hwrite] at hended
      cases hended

/-- A command that fails leaves all files as they are. -/
theorem files_attempt_error {s s' : σ} {command : Command} {e : CommandError}
    (h : disk.attempt s (Task.ofCommand command) = (.error e, s')) :
    disk.files s' = disk.files s := by
  cases houtput : command.output with
  | none =>
    have hfiles := disk.files_attempt (Task.readsOnly_ofCommand houtput) s
    rw [h] at hfiles
    exact hfiles
  | some path =>
    cases command with
    | types spec choices output =>
      obtain rfl : output = some path := houtput
      exact disk.files_attempt_types_error h
    | _ => cases houtput

theorem write_fails_of_attempt_error {s s' mid : σ} {command : Command} {e : CommandError}
    {result : String} (h : disk.attempt s (Task.ofCommand command) = (.error e, s'))
    (yields : disk.Yields s command result mid) :
    ∃ path failure, command.output = some path ∧
      (disk.write mid path result).1 = .error failure := by
  have refused : ∀ printed final,
      ¬ disk.Delivers mid result command.output printed final := by
    intro printed final delivers
    rw [World.attempt_ofCommand_eq_ok.mpr ⟨result, mid, yields, delivers⟩] at h
    cases h
  cases houtput : command.output with
  | none =>
    rw [houtput] at refused
    exact absurd .printed (refused result mid)
  | some path =>
    rcases hwrite : disk.write mid path result with ⟨failure | _, final⟩
    · exact ⟨path, failure, rfl, by rw [hwrite]⟩
    · rw [houtput] at refused
      exact absurd (.written hwrite) (refused "" final)

/-- Whatever the files and the standard input hold, a command ends in one of two ways. Either it has
a result, delivers the whole of it and exits with 0 and no error. Or it exits with 1 and an error,
prints nothing and leaves all files as they are. It fails only if it has no result or its result
cannot be written. -/
theorem delivered_or_unchanged (s : σ) (command : Command) :
    (∃ result mid, disk.Yields s command result mid ∧ disk.files mid = disk.files s ∧
      disk.Delivers mid result command.output (disk.outcome s command).printed
        (disk.after s command) ∧
      (disk.outcome s command).error = none ∧ (disk.outcome s command).exitCode = 0) ∨
    ((∃ e : CommandError, (disk.outcome s command).error = some ("error: " ++ e.message)) ∧
      (disk.outcome s command).exitCode = 1 ∧ (disk.outcome s command).printed = "" ∧
      disk.files (disk.after s command) = disk.files s ∧
      ∀ result mid, disk.Yields s command result mid → ∃ path failure,
        command.output = some path ∧ (disk.write mid path result).1 = .error failure) := by
  rw [World.outcome_eq, World.after_eq]
  rcases hattempt : disk.attempt s (Task.ofCommand command) with ⟨e | printed, final⟩
  · right
    refine ⟨⟨e, rfl⟩, rfl, rfl, disk.files_attempt_error hattempt, ?_⟩
    intro result mid yields
    exact disk.write_fails_of_attempt_error hattempt yields
  · left
    obtain ⟨result, mid, yields, delivers⟩ := World.attempt_ofCommand_eq_ok.mp hattempt
    exact ⟨result, mid, yields, disk.files_yields yields, delivers, rfl, rfl⟩

/-- No file, and a specification on the standard input. -/
def piped : Workspace := .ofFiles [] "\x7b\"total\": \"Int\"\x7d".toUTF8

theorem delivered_or_unchanged_piped :
    (∃ mid, Workspace.fileSystem.Yields piped (.compile ⟨"-", none, none⟩ .compact)
        (Workspace.fileSystem.outcome piped (.compile ⟨"-", none, none⟩ .compact)).printed mid) ∧
      (Workspace.fileSystem.outcome piped
        (.types ⟨"-", none, some "-"⟩ {} (some "total.ts"))).printed = "" ∧
      (Workspace.fileSystem.after piped
        (.types ⟨"-", none, some "-"⟩ {} (some "total.ts"))).files = [] := by
  have compiled : (Workspace.fileSystem.outcome piped
      (.compile ⟨"-", none, none⟩ .compact)).error = none := by decide +kernel
  have refused : (Workspace.fileSystem.outcome piped
      (.types ⟨"-", none, some "-"⟩ {} (some "total.ts"))).exitCode = 1 := by rfl
  constructor
  · rcases Workspace.fileSystem.delivered_or_unchanged piped (.compile ⟨"-", none, none⟩ .compact)
      with ⟨result, mid, yields, -, delivers, -⟩ | ⟨⟨e, herror⟩, -⟩
    · refine ⟨mid, ?_⟩
      generalize (Workspace.fileSystem.outcome piped _).printed = printed at delivers ⊢
      cases delivers
      exact yields
    · rw [compiled] at herror
      cases herror
  · rcases Workspace.fileSystem.delivered_or_unchanged piped
      (.types ⟨"-", none, some "-"⟩ {} (some "total.ts"))
      with ⟨-, -, -, -, -, -, hexit⟩ | ⟨-, -, hprinted, hfiles, -⟩
    · rw [refused] at hexit
      cases hexit
    · exact ⟨hprinted, congrArg Prod.fst hfiles⟩

end FileSystem

end WireQuery.CommandLine
