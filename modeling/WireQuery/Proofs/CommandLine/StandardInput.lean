import WireQuery.Proofs.CommandLine.Agreement
import WireQuery.Proofs.CommandLine.Delivery
import WireQuery.Proofs.CommandLine.Events
import WireQuery.Proofs.CommandLine.Failures

/-!
# The standard input

A command asks for its inputs one after another, each only once those before it have been read and
let it go on. So of its inputs a beginning is read, and the standard input is read for the one that
it stands for, if the command gets there. A second input cannot stand for it: then the command is
refused before it does anything.
-/

namespace WireQuery.CommandLine
set_option autoImplicit false

/-- Whether a command goes on to its next input, by the texts of those before it. It reads its
scalar table once its specification is understood, and an input of its own once that has
compiled. -/
inductive Command.GoesOn (command : Command) : List (Option String) → Prop
  | specification : GoesOn command []
  | scalars {text : String} {root : Group} (read : Group.read text = .ok root) :
      GoesOn command [some text]
  | own {text : String} {scalars : Option String} {query : Query}
      (compiles : command.spec.Compiles text scalars query) : GoesOn command [some text, scalars]

theorem TableOf.unique {text : Option String} {table table' : ScalarTable}
    (h : TableOf text table) (h' : TableOf text table') : table = table' := by
  cases h with
  | builtin =>
    cases h'
    rfl
  | extended read =>
    cases h' with
    | extended read' =>
      rw [read] at read'
      exact Except.ok.inj read'

/-- The sources that inputs are read from. An input that is left out has none. -/
def sourcesOf (paths : List (Option String)) : List Source :=
  paths.filterMap fun path => path.map Source.ofPath

/-- What a command asks for among its inputs, by the texts of the inputs before: it stops where it
does not go on, and at an input that cannot be read. -/
inductive World.Asks {σ : Type} (world : World σ) (command : Command) :
    σ → List (Option String) → List (Option String) → List Source → Prop
  | done (s : σ) (texts : List (Option String)) : Asks world command s texts [] []
  | stop {s : σ} {texts inputs : List (Option String)} (stops : ¬ command.GoesOn texts) :
      Asks world command s texts inputs []
  | skip {s : σ} {texts inputs : List (Option String)} {sources : List Source}
      (goesOn : command.GoesOn texts)
      (rest : Asks world command s (texts ++ [none]) inputs sources) :
      Asks world command s texts (none :: inputs) sources
  | failed {s s' : σ} {texts inputs : List (Option String)} {path : String} {failure : FileFailure}
      (goesOn : command.GoesOn texts)
      (answer : world.read s (.ofPath path) = (.error failure, s')) :
      Asks world command s texts (some path :: inputs) [.ofPath path]
  | read {s mid : σ} {texts inputs : List (Option String)} {path text : String}
      {sources : List Source} (goesOn : command.GoesOn texts)
      (answer : world.read s (.ofPath path) = (.ok text, mid))
      (rest : Asks world command mid (texts ++ [some text]) inputs sources) :
      Asks world command s texts (some path :: inputs) (.ofPath path :: sources)

theorem Command.GoesOn.before {command : Command} {texts more : List (Option String)}
    (h : command.GoesOn (texts ++ more)) : command.GoesOn texts := by
  generalize hall : texts ++ more = all at h
  cases h with
  | specification =>
    obtain ⟨rfl, -⟩ := List.append_eq_nil_iff.mp hall
    exact .specification
  | scalars read =>
    rcases List.append_eq_singleton_iff.mp hall with ⟨rfl, -⟩ | ⟨rfl, -⟩
    · exact .specification
    · exact .scalars read
  | @own text scalars query compiles =>
    obtain ⟨root, table, hread, -⟩ := id compiles
    rcases texts with _ | ⟨first, _ | ⟨second, texts⟩⟩
    · exact .specification
    · cases hall
      exact .scalars hread
    · have hparts : first = some text ∧ second = scalars ∧ texts = [] ∧ more = [] := by
        simpa using hall
      obtain ⟨rfl, rfl, rfl, -⟩ := hparts
      exact .own compiles

namespace World

variable {σ α : Type} {world : World σ} {command : Command} {s : σ}

/-- A command gets to an input: those before it are read, and it goes on from them. -/
def Reaches (world : World σ) (s : σ) (command : Command) (before : List (Option String)) : Prop :=
  ∃ texts mid, world.Reads s before texts mid ∧ command.GoesOn texts

theorem Reads.length_eq {paths texts : List (Option String)} {s' : σ}
    (h : world.Reads s paths texts s') : paths.length = texts.length := by
  induction h with
  | nil => rfl
  | skip _ ih => exact congrArg Nat.succ ih
  | read _ _ ih => exact congrArg Nat.succ ih

/-- A command gets to an input of its own if and only if the check of its specification succeeds. -/
theorem reaches_own_iff {command : Command}
    (once : ReadOnce [some command.spec.path, command.spec.scalars]) :
    world.Reaches s command [some command.spec.path, command.spec.scalars] ↔
      (world.outcome s (.check command.spec)).error = none := by
  rw [outcome_eq]
  constructor
  · rintro ⟨texts, mid, hreads, goesOn⟩
    cases goesOn with
    | specification => cases hreads.length_eq
    | scalars => cases hreads.length_eq
    | own compiles =>
      rw [attempt_check_eq_ok.mpr ⟨once, _, hreads, .check compiles⟩]
      rfl
  · intro checked
    obtain ⟨printed, hprinted⟩ := Outcome.exists_of_error_eq_none checked
    obtain ⟨-, texts, hreads, gives⟩ := attempt_check_eq_ok.mp (Prod.ext hprinted rfl)
    cases gives with
    | check compiles => exact ⟨_, _, hreads, .own compiles⟩

/-- A command gets to an input from where it has the texts of some inputs already. -/
def ReachesFrom (world : World σ) (s : σ) (command : Command)
    (texts before : List (Option String)) : Prop :=
  ∃ more mid, world.Reads s before more mid ∧ command.GoesOn (texts ++ more)

variable {texts inputs before : List (Option String)}

theorem ReachesFrom.goesOn (h : world.ReachesFrom s command texts before) :
    command.GoesOn texts := by
  obtain ⟨more, mid, -, goesOn⟩ := h
  exact goesOn.before

theorem reachesFrom_nil (goesOn : command.GoesOn texts) :
    world.ReachesFrom s command texts [] := by
  refine ⟨[], s, .nil s, ?_⟩
  rwa [List.append_nil]

theorem reachesFrom_none_iff :
    world.ReachesFrom s command texts (none :: before) ↔
      world.ReachesFrom s command (texts ++ [none]) before := by
  constructor
  · rintro ⟨_, mid, hreads, goesOn⟩
    cases hreads with
    | skip hreads => exact ⟨_, mid, hreads, by rwa [List.append_assoc]⟩
  · rintro ⟨more, mid, hreads, goesOn⟩
    rw [List.append_assoc] at goesOn
    exact ⟨none :: more, mid, .skip hreads, goesOn⟩

theorem reachesFrom_some_iff {path text : String} {after : σ}
    (answer : world.read s (.ofPath path) = (.ok text, after)) :
    world.ReachesFrom s command texts (some path :: before) ↔
      world.ReachesFrom after command (texts ++ [some text]) before := by
  constructor
  · rintro ⟨_, mid, hreads, goesOn⟩
    cases hreads with
    | read hanswer hreads =>
      rw [answer] at hanswer
      cases hanswer
      exact ⟨_, mid, hreads, by rwa [List.append_assoc]⟩
  · rintro ⟨more, mid, hreads, goesOn⟩
    rw [List.append_assoc] at goesOn
    exact ⟨some text :: more, mid, .read answer hreads, goesOn⟩

theorem not_reachesFrom_of_failure {path : String} {failure : FileFailure} {after : σ}
    (answer : world.read s (.ofPath path) = (.error failure, after)) :
    ¬ world.ReachesFrom s command texts (some path :: before) := by
  rintro ⟨_, mid, hreads, -⟩
  cases hreads with
  | read hanswer =>
    rw [answer] at hanswer
    cases hanswer

/-- What is asked for are the inputs of a beginning, and of these each one that is reached. -/
theorem Asks.exists_asked {sources : List Source}
    (h : world.Asks command s texts inputs sources) :
    ∃ asked rest, inputs = asked ++ rest ∧ sources = sourcesOf asked ∧
      ∀ before path after, inputs = before ++ some path :: after →
        (before.length < asked.length ↔ world.ReachesFrom s command texts before) := by
  induction h with
  | done s texts =>
    refine ⟨[], [], rfl, rfl, ?_⟩
    intro before path after heq
    simp at heq
  | @stop s texts inputs stops =>
    refine ⟨[], inputs, rfl, rfl, ?_⟩
    intro before path after _
    exact iff_of_false (Nat.not_lt_zero _) (mt ReachesFrom.goesOn stops)
  | @skip s texts inputs sources _ _ ih =>
    obtain ⟨asked, rest, rfl, rfl, hasked⟩ := ih
    refine ⟨none :: asked, rest, rfl, rfl, ?_⟩
    intro before path after heq
    cases before with
    | nil => cases heq
    | cons first before =>
      obtain ⟨rfl, hrest⟩ := List.cons.inj heq
      rw [reachesFrom_none_iff, ← hasked before path after hrest]
      exact Nat.succ_lt_succ_iff
  | @failed s s' texts inputs path failure goesOn answer =>
    refine ⟨[some path], inputs, rfl, rfl, ?_⟩
    intro before path' after heq
    cases before with
    | nil => exact iff_of_true Nat.one_pos (reachesFrom_nil goesOn)
    | cons first before =>
      obtain ⟨rfl, -⟩ := List.cons.inj heq
      exact iff_of_false (by simp) (not_reachesFrom_of_failure answer)
  | @read s mid texts inputs path text sources goesOn answer _ ih =>
    obtain ⟨asked, rest, rfl, rfl, hasked⟩ := ih
    refine ⟨some path :: asked, rest, rfl, rfl, ?_⟩
    intro before path' after heq
    cases before with
    | nil => exact iff_of_true (Nat.succ_pos _) (reachesFrom_nil goesOn)
    | cons first before =>
      obtain ⟨rfl, hrest⟩ := List.cons.inj heq
      rw [reachesFrom_some_iff answer, ← hasked before path' after hrest]
      exact Nat.succ_lt_succ_iff

/-! ## What commands ask for -/

/-- The sources that a task reads. -/
def sources (world : World σ) (s : σ) (task : Task α) : List Source :=
  (world.log s task).filterMap Event.source?

variable {β : Type} {task : Task α}

theorem sources_bind_ok {a : α} {mid : σ} (h : world.attempt s task = (.ok a, mid))
    (next : α → Task β) :
    world.sources s (task >>= next) = world.sources s task ++ world.sources mid (next a) := by
  rw [sources, log_bind_ok h, List.filterMap_append]
  rfl

theorem sources_bind_error {e : CommandError} {mid : σ}
    (h : world.attempt s task = (.error e, mid)) (next : α → Task β) :
    world.sources s (task >>= next) = world.sources s task := by
  rw [sources, log_bind_error h]
  rfl

/-- What comes after a task adds nothing if it reads nothing. -/
theorem sources_bind_silent {next : α → Task β}
    (silent : ∀ a mid, world.sources mid (next a) = []) :
    world.sources s (task >>= next) = world.sources s task := by
  rcases htask : world.attempt s task with ⟨e | a, mid⟩
  · exact sources_bind_error htask next
  · rw [sources_bind_ok htask, silent, List.append_nil]

theorem sources_checked {paths : List (Option String)} (once : ReadOnce paths)
    (next : Task α) :
    world.sources s (Task.checkInputs paths >>= fun _ => next) = world.sources s next := by
  rw [sources_bind_ok (attempt_checkInputs_once once), sources, log_checkInputs]
  rfl

@[simp] theorem sources_load (reader : String → Except Json.Error α) (path : String) :
    world.sources s (Task.load reader path) = [.ofPath path] := by
  rw [sources, log_load]
  rfl

theorem asks_load {reader : String → Except Json.Error α} {path : String} {next : α → Task β}
    {texts inputs : List (Option String)} (goesOn : command.GoesOn texts)
    (refused : ∀ text e mid, reader text = .error e →
      world.Asks command mid (texts ++ [some text]) inputs [])
    (accepted : ∀ text value mid, reader text = .ok value →
      world.Asks command mid (texts ++ [some text]) inputs (world.sources mid (next value))) :
    world.Asks command s texts (some path :: inputs)
      (world.sources s (Task.load reader path >>= next)) := by
  rcases hread : world.read s (.ofPath path) with ⟨failure | text, mid⟩
  · have hload : world.attempt s (Task.load reader path) = (.error (.read path failure), mid) := by
      rw [attempt_load, hread]
      rfl
    rw [sources_bind_error hload, sources_load]
    exact .failed goesOn hread
  · cases hreader : reader text with
    | error e =>
      have hload : world.attempt s (Task.load reader path) = (.error (.json path e), mid) := by
        rw [attempt_load, hread]
        change ((reader text).mapError (CommandError.json path), mid) = _
        rw [hreader]
        rfl
      rw [sources_bind_error hload, sources_load]
      exact .read goesOn hread (refused text e mid hreader)
    | ok value =>
      rw [sources_bind_ok (attempt_load_eq_ok.mpr ⟨text, hread, hreader⟩), sources_load]
      exact .read goesOn hread (accepted text value mid hreader)

theorem asks_scalars {path : Option String} {next : ScalarTable → Task β}
    {texts inputs : List (Option String)} (goesOn : command.GoesOn texts)
    (refused : ∀ text mid, (¬ ∃ table, TableOf text table) →
      world.Asks command mid (texts ++ [text]) inputs [])
    (accepted : ∀ text table mid, TableOf text table →
      world.Asks command mid (texts ++ [text]) inputs (world.sources mid (next table))) :
    world.Asks command s texts (path :: inputs) (world.sources s (Task.scalars path >>= next)) := by
  cases path with
  | none => exact .skip goesOn (accepted none .builtin s .builtin)
  | some path =>
    apply asks_load goesOn
    · intro text e mid hreader
      apply refused
      rintro ⟨table, ⟨⟩ | hread⟩
      rw [hreader] at hread
      cases hread
    · intro text table mid hreader
      exact accepted (some text) table mid (.extended hreader)

theorem asks_query {spec : SpecSource} (hspec : command.spec = spec) {next : Query → Task β}
    {inputs : List (Option String)} (once : ReadOnce [some spec.path, spec.scalars])
    (compiled : ∀ text scalars query mid, spec.Compiles text scalars query →
      world.Asks command mid [some text, scalars] inputs (world.sources mid (next query))) :
    world.Asks command s [] (some spec.path :: spec.scalars :: inputs)
      (world.sources s (Task.query spec >>= next)) := by
  subst hspec
  rw [Task.query]
  simp only [bind_assoc]
  rw [sources_checked once]
  apply asks_load .specification
  · intro text e mid hreader
    apply Asks.stop
    rintro ⟨⟩
    next hread =>
      rw [hreader] at hread
      cases hread
  · intro text root mid hroot
    apply asks_scalars (.scalars hroot)
    · intro scalars mid hrefused
      apply Asks.stop
      rintro ⟨⟩
      next hcompiles =>
        obtain ⟨_, table, -, htable, -⟩ := hcompiles
        exact hrefused ⟨table, htable⟩
    · intro scalars table mid htable
      cases hcompile : root.compile command.spec.operationName table with
      | ok query => exact compiled text scalars query mid ⟨root, table, hroot, htable, hcompile⟩
      | error e =>
        apply Asks.stop
        rintro ⟨⟩
        next hcompiles =>
          obtain ⟨root', table', hroot', htable', hcompile'⟩ := hcompiles
          rw [hroot] at hroot'
          cases hroot'
          rw [htable.unique htable', hcompile'] at hcompile
          cases hcompile

/-- The last input of a command is asked for, whatever is made of it. -/
theorem asks_last {texts : List (Option String)} (goesOn : command.GoesOn texts)
    (path : Option String) : world.Asks command s texts [path] (sourcesOf [path]) := by
  cases path with
  | none => exact .skip goesOn (.done s _)
  | some path =>
    rcases hread : world.read s (.ofPath path) with ⟨failure | text, mid⟩
    · exact .failed goesOn hread
    · exact .read goesOn hread (.done mid _)

@[simp] theorem sources_bindings (path : Option String) :
    world.sources s (Task.bindings path) = sourcesOf [path] := by
  cases path with
  | none => rfl
  | some path =>
    rw [Task.bindings, sources_bind_silent, sources_load]
    · rfl
    · intro value mid
      cases value <;> rfl

theorem sources_write (path text : String) :
    world.sources s (do
      match ← (Session.writeFile path text : Session _) with
      | .ok () => return ""
      | .error failure => throw (.write path failure) : Task String) = [] := by
  change (Event.write path text :: world.events (world.write s path text).2 _).filterMap _ = []
  cases (world.write s path text).1 <;> rfl

theorem Asks.nothing {texts : List (Option String)} {sources : List Source}
    (h : sources = []) : world.Asks command s texts [] sources := by
  rw [h]
  exact .done s texts

theorem asks_ofCommand (once : ReadOnce command.inputs) :
    world.Asks command s [] command.inputs (world.sources s (Task.ofCommand command)) := by
  cases command with
  | compile spec style =>
    refine asks_query (by rfl) once ?_
    intro text scalars query mid _
    exact .nothing rfl
  | check spec =>
    refine asks_query (by rfl) once ?_
    intro text scalars query mid _
    exact .nothing rfl
  | types spec choices output =>
    refine asks_query (by rfl) once ?_
    intro text scalars query mid _
    cases output with
    | none => exact .nothing rfl
    | some path => exact .nothing (sources_write path (query.typings choices))
  | request spec input style =>
    rw [Command.inputs] at once ⊢
    rw [Task.ofCommand, sources_checked once]
    refine asks_query (by rfl) once.left ?_
    intro text scalars query mid compiles
    have goesOn : (Command.request spec input style).GoesOn [some text, scalars] := .own compiles
    rw [sources_bind_silent, sources_bindings]
    · exact asks_last goesOn input
    · intro bindings after
      split <;> rfl
  | reshape spec response style =>
    rw [Command.inputs] at once ⊢
    rw [Task.ofCommand, sources_checked once]
    refine asks_query (by rfl) once.left ?_
    intro text scalars query mid compiles
    have goesOn : (Command.reshape spec response style).GoesOn [some text, scalars] :=
      .own compiles
    rw [sources_bind_silent, sources_load]
    · exact asks_last goesOn (some response)
    · intro answer after
      split <;> rfl

end World

/-! ## How often the standard input is read -/

@[simp] theorem Source.ofPath_eq_standardInput {path : String} :
    ofPath path = .standardInput ↔ path = "-" := by
  unfold ofPath
  split <;> simp [*]

@[simp] theorem count_standardInput_sourcesOf (paths : List (Option String)) :
    (sourcesOf paths).count .standardInput = paths.countP (· = some "-") := by
  induction paths with
  | nil => rfl
  | cons path paths ih =>
    cases path with
    | none => simpa [sourcesOf] using ih
    | some path =>
      have hcons : sourcesOf (some path :: paths) = .ofPath path :: sourcesOf paths := rfl
      rw [hcons, List.count_cons, List.countP_cons, ih]
      simp [Source.ofPath_eq_standardInput]

theorem count_read (source : Source) (events : List Event) :
    events.count (.read source) = (events.filterMap Event.source?).count source := by
  induction events with
  | nil => rfl
  | cons event events ih =>
    cases event with
    | read other => simp [Event.source?, List.count_cons, ih]
    | write path content =>
      rw [List.count_cons_of_ne (by simp), ih]
      rfl

theorem ReadOnce.not_mem_before {before after : List (Option String)}
    (once : ReadOnce (before ++ some "-" :: after)) : some "-" ∉ before := by
  intro hmem
  have hbefore : 0 < before.countP (· = some "-") :=
    List.countP_pos_iff.mpr ⟨_, hmem, decide_eq_true rfl⟩
  have hplace : 0 < (some "-" :: after).countP (· = some "-") :=
    List.countP_pos_iff.mpr ⟨_, List.mem_cons_self, decide_eq_true rfl⟩
  rw [ReadOnce, List.countP_append] at once
  omega

/-- The input that is the standard input is among the first inputs if and only if its place is. -/
theorem ReadOnce.mem_iff {asked rest before after : List (Option String)}
    (once : ReadOnce (asked ++ rest)) (place : asked ++ rest = before ++ some "-" :: after) :
    some "-" ∈ asked ↔ before.length < asked.length := by
  have hbefore : some "-" ∉ before := ReadOnce.not_mem_before (place ▸ once)
  rcases List.append_eq_append_iff.mp place with ⟨between, rfl, -⟩ | ⟨between, rfl, hbetween⟩
  · refine iff_of_false ?_ (by simp)
    intro hmem
    exact hbefore (List.mem_append_left between hmem)
  · cases between with
    | nil =>
      rw [List.append_nil]
      exact iff_of_false hbefore (Nat.lt_irrefl _)
    | cons path between =>
      obtain ⟨rfl, -⟩ := List.cons.inj hbetween
      exact iff_of_true (by simp) (by simp)

namespace World

variable {σ : Type}

/-- A task fails before it does anything. -/
def Refuses (world : World σ) (s : σ) {α : Type} (task : Task α) (e : CommandError) : Prop :=
  world.attempt s task = (.error e, s) ∧ world.log s task = []

variable {world : World σ} {s : σ}

theorem Refuses.bind {α β : Type} {task : Task α} {e : CommandError} (h : world.Refuses s task e)
    (next : α → Task β) : world.Refuses s (task >>= next) e :=
  ⟨attempt_bind_error h.1 next, by rw [log_bind_error h.1, h.2]⟩

theorem refuses_checkInputs {paths : List (Option String)} (h : ¬ ReadOnce paths) :
    world.Refuses s (Task.checkInputs paths) .inputReused :=
  ⟨attempt_checkInputs_reused h, log_checkInputs s paths⟩

theorem refuses_query {spec : SpecSource} (h : ¬ ReadOnce [spec.path, spec.scalars]) :
    world.Refuses s (Task.query spec) .inputReused :=
  (refuses_checkInputs h).bind _

theorem refuses_ofCommand {command : Command} (h : ¬ ReadOnce command.inputs) :
    world.Refuses s (Task.ofCommand command) .inputReused := by
  cases command with
  | compile spec style => exact (refuses_query h).bind _
  | check spec => exact (refuses_query h).bind _
  | types spec choices output => exact (refuses_query h).bind _
  | request spec input style => exact (refuses_checkInputs h).bind _
  | reshape spec response style => exact (refuses_checkInputs h).bind _

/-- If more than one input of a command is the standard input, it fails and has read and written
nothing. Otherwise it never reports that. It reads a beginning of its inputs in their order, each of
them if and only if those before it have been read and let it go on. So it reads the standard input
at most once, only for an input that stands for it, and if and only if it gets to that input. -/
theorem standardInput_feeds_once (world : World σ) (s : σ) (command : Command) :
    (¬ ReadOnce command.inputs →
      world.outcome s command = ⟨"", some "error: stdin (`-`) can feed only one input"⟩ ∧
        world.events s command.session = []) ∧
    (ReadOnce command.inputs →
      (world.outcome s command).error ≠ some "error: stdin (`-`) can feed only one input" ∧
      (∃ asked rest, command.inputs = asked ++ rest ∧
        (world.events s command.session).filterMap Event.source? = sourcesOf asked ∧
        ∀ before path after, command.inputs = before ++ some path :: after →
          (before.length < asked.length ↔ world.Reaches s command before)) ∧
      (world.events s command.session).count (.read .standardInput) ≤ 1 ∧
      (.read .standardInput ∈ world.events s command.session → some "-" ∈ command.inputs) ∧
      ∀ before after, command.inputs = before ++ some "-" :: after →
        (.read .standardInput ∈ world.events s command.session ↔
          world.Reaches s command before)) := by
  rw [events_session]
  constructor
  · intro reused
    have hrefuses : world.Refuses s (Task.ofCommand command) .inputReused :=
      refuses_ofCommand reused
    rw [outcome_eq, hrefuses.1]
    exact ⟨rfl, hrefuses.2⟩
  · intro once
    have hasks : world.Asks command s [] command.inputs _ := asks_ofCommand once
    obtain ⟨asked, rest, hinputs, hsources, hreached⟩ := hasks.exists_asked
    have hcount : (world.log s (Task.ofCommand command)).count (.read .standardInput) =
        asked.countP (· = some "-") := by
      rw [count_read, ← sources, hsources, count_standardInput_sourcesOf]
    have hmem : .read .standardInput ∈ world.log s (Task.ofCommand command) ↔
        some "-" ∈ asked := by
      rw [← List.count_pos_iff, hcount, List.countP_pos_iff]
      simp
    have honce : ReadOnce (asked ++ rest) := hinputs ▸ once
    refine ⟨world.error_ne_of_readOnce s once, ⟨asked, rest, hinputs, hsources, hreached⟩,
      ?_, ?_, ?_⟩
    · rw [hcount]
      exact Nat.le_trans (List.sublist_append_left asked rest).countP_le honce
    · intro hread
      rw [hinputs]
      exact List.mem_append_left rest (hmem.mp hread)
    · intro before after hplace
      rw [hmem, honce.mem_iff (hinputs ▸ hplace)]
      exact hreached before "-" after hplace

theorem standardInput_feeds_once_shop :
    shop.outcome () (.reshape ⟨"-", none, none⟩ "-" .compact) =
        ⟨"", some "error: stdin (`-`) can feed only one input"⟩ ∧
      shop.events () (Command.session (.reshape ⟨"-", none, none⟩ "-" .compact)) = [] ∧
      .read .standardInput ∈
        shop.events () (Command.session (.reshape ⟨"order.json", none, none⟩ "-" .compact)) ∧
      .read .standardInput ∉
        shop.events () (Command.session (.reshape ⟨"lost.json", none, none⟩ "-" .compact)) := by
  obtain ⟨houtcome, hevents⟩ :=
    (standardInput_feeds_once shop () (.reshape ⟨"-", none, none⟩ "-" .compact)).1 (by decide)
  obtain ⟨-, -, -, -, hfound⟩ := (standardInput_feeds_once shop ()
    (.reshape ⟨"order.json", none, none⟩ "-" .compact)).2 (by decide)
  obtain ⟨-, -, -, -, hlost⟩ := (standardInput_feeds_once shop ()
    (.reshape ⟨"lost.json", none, none⟩ "-" .compact)).2 (by decide)
  have absent : shop.read () (.ofPath "lost.json") = (.error .notFound, ()) := by decide +kernel
  have checked : (shop.outcome () (.check ⟨"order.json", none, none⟩)).error = none := by
    decide +kernel
  refine ⟨houtcome, hevents, ?_, ?_⟩
  · rw [hfound [some "order.json", none] [] rfl]
    exact (reaches_own_iff (by decide)).mpr checked
  · rw [hlost [some "lost.json", none] [] rfl]
    rintro ⟨_, _, hreads, -⟩
    cases hreads with
    | read answer =>
      rw [absent] at answer
      cases answer

end World

end WireQuery.CommandLine
