import WireQuery.Proofs.CommandLine.Inputs

/-!
# What sessions do

Everything that a session does in a world, in order: the sources that it reads and the files that it
writes. A session that goes on after another does what that one does, and then its own part.
-/

namespace WireQuery.CommandLine
set_option autoImplicit false

@[simp] theorem Session.bind_done {α : Type} (session : Session α) :
    session >>= .done = session := by
  induction session with
  | done result => rfl
  | read source next ih => exact congrArg (Session.read source) (funext ih)
  | write path content next ih => exact congrArg (Session.write path content) (funext ih)

theorem Session.bind_bind {α β γ : Type} (session : Session α) (f : α → Session β)
    (g : β → Session γ) : session >>= f >>= g = session >>= fun a => f a >>= g := by
  induction session with
  | done result => rfl
  | read source next ih => exact congrArg (Session.read source) (funext ih)
  | write path content next ih => exact congrArg (Session.write path content) (funext ih)

instance : LawfulMonad Session :=
  LawfulMonad.mk' Session Session.bind_done (fun _ _ => rfl) Session.bind_bind

/-- Something that a session does. -/
inductive Event where
  | read (source : Source)
  | write (path content : String)
  deriving DecidableEq

def Event.source? : Event → Option Source
  | read source => some source
  | write _ _ => none

namespace World

variable {σ α β : Type}

/-- What a session does, whatever comes of it. -/
def events (world : World σ) (s : σ) : Session α → List Event
  | .done _ => []
  | .read source next =>
    .read source :: world.events (world.read s source).2 (next (world.read s source).1)
  | .write path content next =>
    .write path content ::
      world.events (world.write s path content).2 (next (world.write s path content).1)

variable (world : World σ)

theorem events_bind (s : σ) (session : Session α) (next : α → Session β) :
    world.events s (session >>= next) =
      world.events s session ++ world.events (world.run s session).2
        (next (world.run s session).1) := by
  induction session generalizing s with
  | done result => rfl
  | read source rest ih => exact congrArg _ (ih _ _)
  | write path content rest ih => exact congrArg _ (ih _ _)

/-- What a task does. -/
def log (s : σ) (task : Task α) : List Event := world.events s task.run

@[simp] theorem events_session (s : σ) (command : Command) :
    world.events s command.session = world.log s (Task.ofCommand command) := by
  rw [Command.session, events_bind]
  exact List.append_nil _

variable {world} {s s' : σ} {task : Task α}

theorem log_bind_ok {a : α} (h : world.attempt s task = (.ok a, s')) (next : α → Task β) :
    world.log s (task >>= next) = world.log s task ++ world.log s' (next a) := by
  rw [attempt] at h
  rw [log, ExceptT.run_bind, events_bind, h]
  rfl

/-- After a failure nothing more is done. -/
theorem log_bind_error {e : CommandError} (h : world.attempt s task = (.error e, s'))
    (next : α → Task β) : world.log s (task >>= next) = world.log s task := by
  rw [attempt] at h
  rw [log, ExceptT.run_bind, events_bind, h]
  exact List.append_nil _

@[simp] theorem log_checkInputs (s : σ) (paths : List (Option String)) :
    world.log s (Task.checkInputs paths) = [] := by
  unfold Task.checkInputs
  split <;> rfl

@[simp] theorem log_readText (s : σ) (path : String) :
    world.log s (Task.readText path) = [.read (.ofPath path)] := by
  change Event.read _ :: world.events (world.read s (.ofPath path)).2 _ = _
  cases (world.read s (.ofPath path)).1 <;> rfl

theorem log_load (s : σ) (reader : String → Except Json.Error α) (path : String) :
    world.log s (Task.load reader path) = [.read (.ofPath path)] := by
  rw [Task.load]
  rcases htext : world.attempt s (Task.readText path) with ⟨e | text, mid⟩
  · rw [log_bind_error htext, log_readText]
  · rw [log_bind_ok htext, log_readText]
    split <;> rfl

theorem attempt_load (s : σ) (reader : String → Except Json.Error α) (path : String) :
    world.attempt s (Task.load reader path) =
      ((world.read s (.ofPath path)).1.mapError (CommandError.read path) >>= fun text =>
        (reader text).mapError (CommandError.json path), (world.read s (.ofPath path)).2) := by
  rw [Task.load]
  rcases htext : world.attempt s (Task.readText path) with ⟨e | text, mid⟩
  · rw [attempt_bind_error htext]
    rw [attempt_readText] at htext
    obtain ⟨herror, rfl⟩ := Prod.mk.inj htext
    rw [herror]
    rfl
  · rw [attempt_bind_ok htext]
    rw [attempt_readText] at htext
    obtain ⟨hok, rfl⟩ := Prod.mk.inj htext
    rw [hok]
    change _ = ((reader text).mapError (CommandError.json path), _)
    cases reader text <;> rfl

end World

end WireQuery.CommandLine
