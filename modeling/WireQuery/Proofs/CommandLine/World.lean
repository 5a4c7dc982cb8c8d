import WireQuery.CommandLine.Execute
import WireQuery.CommandLine.Workspace

/-!
# Sessions in a world

A world answers what a session reads and writes, from a state that each answer may change. Nothing
more is known of it, so what holds in every world holds for any files and any standard input, and
for any failure to read them. A workspace is a world.
-/

namespace WireQuery.CommandLine
set_option autoImplicit false

/-- Something that answers reads and writes. -/
structure World (σ : Type) where
  read : σ → Source → Except FileFailure String × σ
  write : σ → String → String → Except FileFailure Unit × σ

namespace World

variable {σ α β : Type}

/-- Runs a session, with what it gives and the state it leaves behind. -/
def run (world : World σ) (s : σ) : Session α → α × σ
  | .done result => (result, s)
  | .read source next =>
    let (answer, s) := world.read s source
    world.run s (next answer)
  | .write path content next =>
    let (answer, s) := world.write s path content
    world.run s (next answer)

def workspace : World Workspace := ⟨Workspace.read, Workspace.write⟩

@[simp] theorem run_workspace (w : Workspace) (session : Session α) :
    workspace.run w session = session.runIn w := by
  induction session generalizing w with
  | done result => rfl
  | read source next ih => exact ih _ _
  | write path content next ih => exact ih _ _

variable (world : World σ)

@[simp] theorem run_bind (s : σ) (session : Session α) (next : α → Session β) :
    world.run s (session >>= next) =
      world.run (world.run s session).2 (next (world.run s session).1) := by
  induction session generalizing s with
  | done result => rfl
  | read source rest ih => exact ih _ _
  | write path content rest ih => exact ih _ _

/-- Runs a session that may fail. -/
def attempt (s : σ) (task : Task α) : Except CommandError α × σ := world.run s task.run

variable {world} {s s' : σ} {task : Task α}

theorem attempt_bind_ok {a : α} (h : world.attempt s task = (.ok a, s')) (next : α → Task β) :
    world.attempt s (task >>= next) = world.attempt s' (next a) := by
  rw [attempt, ExceptT.run_bind, run_bind, ← attempt, h]
  rfl

/-- After a failure nothing more is read or written. -/
theorem attempt_bind_error {e : CommandError} (h : world.attempt s task = (.error e, s'))
    (next : α → Task β) : world.attempt s (task >>= next) = (.error e, s') := by
  rw [attempt, ExceptT.run_bind, run_bind, ← attempt, h]
  rfl

theorem attempt_bind_eq_ok {next : α → Task β} {b : β} :
    world.attempt s (task >>= next) = (.ok b, s') ↔
      ∃ a mid, world.attempt s task = (.ok a, mid) ∧ world.attempt mid (next a) = (.ok b, s') := by
  obtain ⟨result, mid, htask⟩ : ∃ result mid, world.attempt s task = (result, mid) := ⟨_, _, rfl⟩
  cases result with
  | error e => simp [attempt_bind_error htask, htask]
  | ok a =>
    rw [attempt_bind_ok htask, htask]
    constructor
    · intro h
      exact ⟨a, mid, rfl, h⟩
    · rintro ⟨_, _, ⟨⟩, h⟩
      exact h

theorem exists_of_attempt_bind {next : α → Task β} {b : β}
    (h : (world.attempt s (task >>= next)).1 = .ok b) :
    ∃ a s', world.attempt s task = (.ok a, s') ∧ (world.attempt s' (next a)).1 = .ok b := by
  obtain ⟨a, s', htask, hnext⟩ := attempt_bind_eq_ok.mp (Prod.ext h rfl)
  exact ⟨a, s', htask, congrArg Prod.fst hnext⟩

end World

/-- What a command leaves behind on the output streams. -/
def World.outcome {σ : Type} (world : World σ) (s : σ) (command : Command) : Outcome :=
  (world.run s command.session).1

/-- The state that a command leaves behind. -/
def World.after {σ : Type} (world : World σ) (s : σ) (command : Command) : σ :=
  (world.run s command.session).2

theorem World.outcome_eq {σ : Type} (world : World σ) (s : σ) (command : Command) :
    world.outcome s command = .ofResult (world.attempt s (Task.ofCommand command)).1 := by
  rw [outcome, Command.session, run_bind]
  rfl

theorem World.after_eq {σ : Type} (world : World σ) (s : σ) (command : Command) :
    world.after s command = (world.attempt s (Task.ofCommand command)).2 := by
  rw [after, Command.session, run_bind]
  rfl

end WireQuery.CommandLine
