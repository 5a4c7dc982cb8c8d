import WireQuery.Proofs.CommandLine.Inputs

/-!
# Failures of commands

A task fails only as one of its parts does, whatever it is answered. So once its inputs are found to
take the standard input at most once, a command never fails for a reused input, and what it fails
for instead has another message.
-/

namespace WireQuery.CommandLine
set_option autoImplicit false

/-- A text that begins otherwise than the message of a reused input. -/
def BeginsOtherwise (text : String) : Prop := text.toList.head?.any (· ≠ 's') = true

theorem BeginsOtherwise.append {opening : String} (h : BeginsOtherwise opening) (rest : String) :
    BeginsOtherwise (opening ++ rest) := by
  unfold BeginsOtherwise at h ⊢
  rw [String.toList_append]
  cases hopening : opening.toList with
  | nil =>
    rw [hopening] at h
    cases h
  | cons c cs =>
    rw [hopening] at h
    exact h

theorem beginsOtherwise_compileError (e : CompileError) : BeginsOtherwise e.message := by
  cases e <;> (repeat apply BeginsOtherwise.append) <;> rfl

theorem beginsOtherwise_bindingError (e : BindingError) : BeginsOtherwise e.message := by
  cases e <;> (repeat apply BeginsOtherwise.append) <;> rfl

theorem beginsOtherwise_decodeError (e : DecodeError) : BeginsOtherwise e.message := by
  cases e <;> (repeat apply BeginsOtherwise.append) <;> rfl

namespace CommandError

/-- An error that a command may come to once its inputs have been checked. No command sends a
request, so none comes to a failure of a transport. -/
def Later : CommandError → Prop
  | inputReused | run (.transport _) => False
  | read _ _ | write _ _ | json _ _ | notAnObject _ | compile _ | run (.binding _)
  | run (.response _) => True

theorem message_ne_of_beginsOtherwise {e : CommandError} (h : BeginsOtherwise e.message) :
    e.message ≠ inputReused.message := by
  intro heq
  rw [heq] at h
  cases h

/-- This message begins with a path, so it is told apart by its end. -/
theorem message_notAnObject_ne (path : String) :
    (notAnObject path).message ≠ inputReused.message := by
  intro heq
  have hsuffix : " must contain a JSON object".toList <:+ inputReused.message.toList := by
    rw [← heq]
    exact ⟨path.toList, String.toList_append.symm⟩
  rw [← List.isSuffixOf_iff_suffix] at hsuffix
  cases hsuffix

theorem Later.message_ne {e : CommandError} (h : e.Later) : e.message ≠ inputReused.message := by
  cases e with
  | inputReused => cases h
  | notAnObject path => exact message_notAnObject_ne path
  | compile error => exact message_ne_of_beginsOtherwise (beginsOtherwise_compileError error)
  | run error =>
    cases error with
    | transport failure => cases h
    | binding error => exact message_ne_of_beginsOtherwise (beginsOtherwise_bindingError error)
    | response error => exact message_ne_of_beginsOtherwise (beginsOtherwise_decodeError error)
  | _ =>
    apply message_ne_of_beginsOtherwise
    repeat apply BeginsOtherwise.append
    rfl

end CommandError

/-- A session's result has a property, whatever is answered. -/
def Session.Ensures {α : Type} (P : α → Prop) : Session α → Prop
  | .done result => P result
  | .read _ next => ∀ answer, (next answer).Ensures P
  | .write _ _ next => ∀ answer, (next answer).Ensures P

theorem Session.Ensures.bind {α β : Type} {P : α → Prop} {Q : β → Prop} {session : Session α}
    {next : α → Session β} (h : session.Ensures P) (hnext : ∀ a, P a → (next a).Ensures Q) :
    (session >>= next).Ensures Q := by
  induction session with
  | done result => exact hnext result h
  | read source rest ih =>
    intro answer
    exact ih answer (h answer)
  | write path content rest ih =>
    intro answer
    exact ih answer (h answer)

theorem Session.Ensures.run {σ α : Type} {P : α → Prop} {session : Session α}
    (h : session.Ensures P) (world : World σ) (s : σ) : P (world.run s session).1 := by
  induction session generalizing s with
  | done result => exact h
  | read source next ih => exact ih _ (h _) _
  | write path content next ih => exact ih _ (h _) _

namespace Task

variable {α β : Type}

/-- Whatever a task is answered, it fails only as a command may once its inputs are checked. -/
def FailsLater (task : Task α) : Prop :=
  Session.Ensures (fun result => ∀ e, result = .error e → e.Later) task.run

theorem FailsLater.bind {task : Task α} {next : α → Task β} (h : task.FailsLater)
    (hnext : ∀ a, (next a).FailsLater) : (task >>= next).FailsLater := by
  rw [FailsLater, ExceptT.run_bind]
  apply Session.Ensures.bind h
  intro result later
  cases result with
  | error e =>
    rintro _ ⟨⟩
    exact later e rfl
  | ok a => exact hnext a

theorem failsLater_ok (a : α) : FailsLater (pure a) := by
  intro e h
  cases h

theorem failsLater_error {e : CommandError} (h : e.Later) :
    FailsLater (throw e : Task α) := by
  rintro _ ⟨⟩
  exact h

theorem failsLater_checkInputs {paths : List (Option String)} (once : ReadOnce paths) :
    (checkInputs paths).FailsLater := by
  rw [checkInputs, if_neg (Nat.not_lt.mpr once)]
  exact failsLater_ok ()

theorem failsLater_readText (path : String) : (readText path).FailsLater := by
  intro answer
  cases answer with
  | ok text => exact failsLater_ok text
  | error failure => exact failsLater_error trivial

theorem failsLater_load (reader : String → Except Json.Error α) (path : String) :
    (load reader path).FailsLater := by
  apply (failsLater_readText path).bind
  intro text
  split
  · exact failsLater_ok _
  · exact failsLater_error trivial

theorem failsLater_scalars (path : Option String) : (scalars path).FailsLater := by
  cases path with
  | none => exact failsLater_ok _
  | some path => exact failsLater_load _ path

theorem failsLater_query {spec : SpecSource} (once : ReadOnce [spec.path, spec.scalars]) :
    (query spec).FailsLater := by
  apply (failsLater_checkInputs once).bind
  intro _
  apply (failsLater_load _ _).bind
  intro root
  apply (failsLater_scalars _).bind
  intro table
  split
  · exact failsLater_ok _
  · exact failsLater_error trivial

theorem failsLater_bindings (path : Option String) : (bindings path).FailsLater := by
  cases path with
  | none => exact failsLater_ok _
  | some path =>
    apply (failsLater_load _ path).bind
    intro value
    split
    · exact failsLater_ok _
    · exact failsLater_error trivial

theorem failsLater_write (path text : String) :
    FailsLater (do
      match ← (Session.writeFile path text : Session _) with
      | .ok () => return ""
      | .error failure => throw (.write path failure) : Task String) := by
  intro answer
  cases answer with
  | ok _ => exact failsLater_ok _
  | error failure => exact failsLater_error trivial

theorem later_of_send {query : Query} {bindings : Bindings} {e : RunError}
    (h : query.send bindings = .error e) : (CommandError.run e).Later := by
  unfold Query.send at h
  split at h
  · cases h
  · cases h
    trivial

theorem later_of_receive {query : Query} {answer : Json} {e : RunError}
    (h : query.receive (.ok answer) = .error e) : (CommandError.run e).Later := by
  unfold Query.receive at h
  dsimp only at h
  split at h
  · cases h
  · cases h
    trivial

theorem failsLater_ofCommand {command : Command} (once : ReadOnce command.inputs) :
    (ofCommand command).FailsLater := by
  cases command with
  | compile spec style =>
    apply (failsLater_query once).bind
    intro query
    exact failsLater_ok _
  | check spec =>
    apply (failsLater_query once).bind
    intro query
    exact failsLater_ok _
  | types spec choices output =>
    apply (failsLater_query once).bind
    intro query
    cases output with
    | none => exact failsLater_ok _
    | some path => exact failsLater_write path (query.typings choices)
  | request spec input style =>
    apply (failsLater_checkInputs once).bind
    intro _
    apply (failsLater_query once.left).bind
    intro query
    apply (failsLater_bindings input).bind
    intro bindings
    split
    · exact failsLater_ok _
    next hsend => exact failsLater_error (later_of_send hsend)
  | reshape spec response style =>
    apply (failsLater_checkInputs once).bind
    intro _
    apply (failsLater_query once.left).bind
    intro query
    apply (failsLater_load _ response).bind
    intro answer
    split
    · exact failsLater_ok _
    next hreceive => exact failsLater_error (later_of_receive hreceive)

end Task

/-- A command whose inputs pass the check does not report that they do not. -/
theorem World.error_ne_of_readOnce {σ : Type} (world : World σ) (s : σ) {command : Command}
    (once : ReadOnce command.inputs) :
    (world.outcome s command).error ≠ some ("error: " ++ CommandError.inputReused.message) := by
  intro hreported
  have hlater := (Task.failsLater_ofCommand once).run world s
  rw [outcome_eq, attempt] at hreported
  generalize (world.run s (Task.ofCommand command).run).1 = result at hreported hlater
  cases result with
  | ok printed => cases hreported
  | error e =>
    have hmessage := String.append_right_inj "error: " |>.mp (Option.some.inj hreported)
    exact (hlater e rfl).message_ne hmessage

end WireQuery.CommandLine
