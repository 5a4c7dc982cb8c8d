import Mathlib.Data.List.Induction
import Mathlib.Logic.Function.Basic
import WireQuery.Proofs.Outcome
import WireQuery.Request.Run

/-!
# Runs that share a query

Any number of runs share one query and one transport. A run checks its bindings and hands over its
request in one step, and decodes the answer to it in another; between the steps of a run come those
of the others, and the transport answers in any order and at any time. What a run does depends on
its bindings and on the answer to its own request alone.
-/

namespace WireQuery
set_option autoImplicit false

namespace Query

/-- The request of a run with these bindings. -/
def requestOf (query : Query) (bindings : Bindings) : Request :=
  ⟨query.document.write .compact, query.document.operationName, bindings⟩

/-- Whether the bindings pass their checks. -/
def accepts (query : Query) (bindings : Bindings) : Bool :=
  (query.document.checkBindings query.table bindings).isOk

variable {query : Query} {bindings : Bindings}

theorem send_of_accepts (h : query.accepts bindings = true) :
    query.send bindings = .ok (query.requestOf bindings) := by
  cases hchecked : query.document.checkBindings query.table bindings with
  | ok _ =>
    simp only [send, Request.ofBindings, hchecked]
    rfl
  | error error =>
    rw [accepts, hchecked] at h
    cases h

theorem send_of_refused {error : BindingError}
    (h : query.document.checkBindings query.table bindings = .error error) :
    query.send bindings = .error (.binding error) := by
  simp only [send, Request.ofBindings, h]
  rfl

theorem exists_of_not_accepts (h : query.accepts bindings = false) :
    ∃ error, query.document.checkBindings query.table bindings = .error error := by
  cases hchecked : query.document.checkBindings query.table bindings with
  | ok _ =>
    rw [accepts, hchecked] at h
    cases h
  | error error => exact ⟨error, rfl⟩

@[simp] theorem receive_ok (query : Query) (response : Json) :
    query.receive (.ok response) = (query.shape.decode response).mapError .response := by
  rw [receive]
  cases query.shape.decode response <;> rfl

end Query

/-- How far a run has come. -/
inductive Stage where
  | ready
  /-- Its request is with the transport, which knows it by its ticket. -/
  | waiting (ticket : Nat)
  | finished (result : Except RunError Value)

theorem Stage.finished_ne_ready (result : Except RunError Value) : finished result ≠ ready :=
  fun heq => nomatch heq

theorem Stage.waiting_ne_ready (ticket : Nat) : waiting ticket ≠ ready := fun heq => nomatch heq

/-- Runs, by what they are called, that share a query and a transport. -/
structure Exchange (ι : Type) where
  query : Query
  stages : ι → Stage
  /-- The requests that have reached the transport, each under its place as ticket. -/
  sent : List Request
  /-- What the transport has answered, by ticket. -/
  answers : Nat → Option Answer

namespace Exchange

variable {ι : Type}

inductive Event (ι : Type) where
  /-- The run checks its bindings and hands over its request. -/
  | send (run : ι)
  /-- The transport answers a request. -/
  | answer (ticket : Nat) (given : Answer)
  /-- The run takes the answer to its request and decodes it. -/
  | receive (run : ι)

/-- Nothing has happened yet. -/
def start (query : Query) : Exchange ι := ⟨query, fun _ => .ready, [], fun _ => none⟩

/-- The exchange after a run has come to a stage. -/
def advance [DecidableEq ι] (s : Exchange ι) (run : ι) (stage : Stage) : Exchange ι :=
  { s with stages := Function.update s.stages run stage }

/-- What happens, if it can: a run begins once, the transport answers a request that it has and has
not answered, and a run that waits takes the answer to its own request. -/
def step [DecidableEq ι] (bindings : ι → Bindings) (s : Exchange ι) :
    Event ι → Option (Exchange ι)
  | .send run =>
    match s.stages run with
    | .ready =>
      match s.query.send (bindings run) with
      | .error error => some (s.advance run (.finished (.error error)))
      | .ok request =>
        some { s.advance run (.waiting s.sent.length) with sent := s.sent ++ [request] }
    | _ => none
  | .answer ticket given =>
    if ticket < s.sent.length ∧ (s.answers ticket).isNone then
      some { s with answers := Function.update s.answers ticket (some given) }
    else none
  | .receive run =>
    match s.stages run with
    | .waiting ticket =>
      match s.answers ticket with
      | some given => some (s.advance run (.finished (s.query.receive given)))
      | none => none
    | _ => none

/-- The runs that have begun, in the order in which they began. -/
def senders (events : List (Event ι)) : List ι :=
  events.filterMap fun event =>
    match event with
    | .send run => some run
    | _ => none

variable (query : Query) (bindings : ι → Bindings)

/-- The runs whose requests reach the transport, in the order in which they do. -/
def served (events : List (Event ι)) : List ι :=
  (senders events).filter fun run => query.accepts (bindings run)

/-- What a run has to end with: the defect of its bindings; or else, if the transport failed at its
request, this failure as it is; or else what the response to its request is decoded as. -/
inductive Concluded (events : List (Event ι)) (run : ι) : Except RunError Value → Prop where
  | refused {error : BindingError}
      (checked : query.document.checkBindings query.table (bindings run) = .error error) :
      Concluded events run (.error (.binding error))
  | failed {ticket : Nat} {failure : TransportFailure}
      (own : (served query bindings events)[ticket]? = some run)
      (answered : .answer ticket (.error failure) ∈ events) :
      Concluded events run (.error (.transport failure))
  | decoded {ticket : Nat} {response : Json}
      (own : (served query bindings events)[ticket]? = some run)
      (answered : .answer ticket (.ok response) ∈ events) :
      Concluded events run ((query.shape.decode response).mapError .response)

/-- What the events so far make of the exchange. -/
structure Follows (events : List (Event ι)) (s : Exchange ι) : Prop where
  unchanged : s.query = query
  sent : s.sent = (served query bindings events).map fun run => query.requestOf (bindings run)
  once : (senders events).Nodup
  begun : ∀ run, run ∈ senders events ↔ s.stages run ≠ .ready
  answered : ∀ ticket given, s.answers ticket = some given ↔ .answer ticket given ∈ events
  waiting : ∀ run ticket, s.stages run = .waiting ticket →
    (served query bindings events)[ticket]? = some run
  finished : ∀ run result, s.stages run = .finished result →
    Concluded query bindings events run result

variable {query bindings} {events : List (Event ι)} {s s' : Exchange ι}

@[simp] theorem senders_append (events events' : List (Event ι)) :
    senders (events ++ events') = senders events ++ senders events' :=
  List.filterMap_append

@[simp] theorem served_append (events events' : List (Event ι)) :
    served query bindings (events ++ events') =
      served query bindings events ++ served query bindings events' := by
  rw [served, senders_append, List.filter_append]
  rfl

theorem getElem?_served_append {ticket : Nat} {run : ι}
    (own : (served query bindings events)[ticket]? = some run) (events' : List (Event ι)) :
    (served query bindings (events ++ events'))[ticket]? = some run := by
  rw [served_append, List.getElem?_append_left (List.getElem?_eq_some_iff.mp own).1]
  exact own

theorem Concluded.append {run : ι} {result : Except RunError Value}
    (h : Concluded query bindings events run result) (events' : List (Event ι)) :
    Concluded query bindings (events ++ events') run result := by
  cases h with
  | refused checked => exact .refused checked
  | failed own answered =>
    exact .failed (getElem?_served_append own events') (List.mem_append_left _ answered)
  | decoded own answered =>
    exact .decoded (getElem?_served_append own events') (List.mem_append_left _ answered)

theorem concluded_receive {run : ι} {ticket : Nat} {given : Answer}
    (own : (served query bindings events)[ticket]? = some run)
    (answered : .answer ticket given ∈ events) :
    Concluded query bindings events run (query.receive given) := by
  cases given with
  | error failure => exact .failed own answered
  | ok response =>
    rw [Query.receive_ok]
    exact .decoded own answered

/-- What has come of the run comes of it alone, through a transport that gives its answer. -/
theorem Concluded.exists_run {run : ι} {result : Except RunError Value}
    (h : Concluded query bindings events run result) :
    ∃ given : Answer, (query.run (fun _ => given) (bindings run)).result = result := by
  have hsend : ∀ {ticket : Nat}, (served query bindings events)[ticket]? = some run →
      query.send (bindings run) = .ok (query.requestOf (bindings run)) :=
    fun own => Query.send_of_accepts (List.mem_filter.mp (List.mem_of_getElem? own)).2
  cases h with
  | refused checked =>
    refine ⟨.ok .null, ?_⟩
    rw [Query.run, Query.send_of_refused checked]
  | @failed _ failure own _ =>
    refine ⟨.error failure, ?_⟩
    rw [Query.run, hsend own]
    rfl
  | @decoded _ response own _ =>
    refine ⟨.ok response, ?_⟩
    rw [Query.run, hsend own]
    exact query.receive_ok response

theorem follows_start : Follows query bindings [] (start query) where
  unchanged := rfl
  sent := rfl
  once := List.nodup_nil
  begun _ := ⟨nofun, fun h => absurd rfl h⟩
  answered _ _ := ⟨nofun, nofun⟩
  waiting _ _ h := nomatch h
  finished _ _ h := nomatch h

theorem senders_append_send (events : List (Event ι)) (run : ι) :
    senders (events ++ [.send run]) = senders events ++ [run] :=
  senders_append events _

/-- Events with which no run begins. -/
theorem senders_append_of_nil {events' : List (Event ι)} (h : senders events' = []) :
    senders (events ++ events') = senders events := by
  rw [senders_append, h, List.append_nil]

theorem served_append_of_nil {events' : List (Event ι)} (h : senders events' = []) :
    served query bindings (events ++ events') = served query bindings events := by
  rw [served, senders_append_of_nil h]
  rfl

theorem Follows.not_mem_senders (h : Follows query bindings events s) {run : ι}
    (hready : s.stages run = .ready) : run ∉ senders events :=
  fun hmem => (h.begun run).mp hmem hready

theorem Follows.once_send (h : Follows query bindings events s) {run : ι}
    (hready : s.stages run = .ready) :
    (senders (events ++ [.send run])).Nodup := by
  rw [senders_append_send, (List.perm_append_singleton run _).nodup_iff, List.nodup_cons]
  exact ⟨h.not_mem_senders hready, h.once⟩

theorem Follows.answered_append {event : Event ι} (h : Follows query bindings events s)
    (silent : ∀ ticket given, event ≠ .answer ticket given) (ticket : Nat) (given : Answer) :
    s.answers ticket = some given ↔ .answer ticket given ∈ events ++ [event] := by
  rw [List.mem_append, List.mem_singleton, ← h.answered]
  exact (or_iff_left fun heq => silent ticket given heq.symm).symm

theorem Follows.answer (h : Follows query bindings events s) {ticket : Nat}
    (hopen : s.answers ticket = none) (given : Answer) :
    Follows query bindings (events ++ [.answer ticket given])
      { s with answers := Function.update s.answers ticket (some given) } := by
  have hsenders : senders (events ++ [.answer ticket given]) = senders events :=
    senders_append_of_nil rfl
  have hserved : served query bindings (events ++ [.answer ticket given]) =
      served query bindings events := served_append_of_nil rfl
  constructor
  case unchanged => exact h.unchanged
  case sent => exact hserved ▸ h.sent
  case once => exact hsenders ▸ h.once
  case begun => exact hsenders ▸ h.begun
  case answered =>
    intro ticket' given'
    change Function.update s.answers ticket (some given) ticket' = _ ↔ _
    rw [List.mem_append, List.mem_singleton, ← h.answered]
    by_cases heq : ticket' = ticket
    · rw [heq, hopen, Function.update_self]
      simp [eq_comm]
    · rw [Function.update_of_ne heq]
      simp [heq]
  case waiting => exact hserved ▸ h.waiting
  case finished => exact fun run result hfinished => (h.finished run result hfinished).append _

variable [DecidableEq ι] {run : ι}

theorem stages_advance_eq {run' : ι} {stage stage' : Stage}
    (h : (s.advance run stage).stages run' = stage') :
    (run' = run ∧ stage = stage') ∨ s.stages run' = stage' := by
  change Function.update s.stages run stage run' = stage' at h
  by_cases heq : run' = run
  · rw [heq, Function.update_self] at h
    exact Or.inl ⟨heq, h⟩
  · rw [Function.update_of_ne heq] at h
    exact Or.inr h

namespace Follows

/-- A run that has come further has begun, and of the others nothing else is known. -/
theorem begun_advance (h : Follows query bindings events s) (run : ι) {stage : Stage}
    (hstage : stage ≠ .ready) (run' : ι) :
    run' ∈ senders events ++ [run] ↔ (s.advance run stage).stages run' ≠ .ready := by
  change _ ↔ Function.update s.stages run stage run' ≠ .ready
  rw [List.mem_append, List.mem_singleton, h.begun]
  by_cases heq : run' = run
  · rw [heq, Function.update_self]
    exact ⟨fun _ => hstage, fun _ => Or.inr rfl⟩
  · rw [Function.update_of_ne heq]
    exact ⟨fun hmem => hmem.resolve_right heq, Or.inl⟩

variable {event : Event ι} {stage : Stage}

theorem waiting_advance (h : Follows query bindings events s)
    (own : ∀ ticket, stage = .waiting ticket →
      (served query bindings (events ++ [event]))[ticket]? = some run)
    (run' : ι) (ticket : Nat) (hwaiting : (s.advance run stage).stages run' = .waiting ticket) :
    (served query bindings (events ++ [event]))[ticket]? = some run' := by
  rcases stages_advance_eq hwaiting with ⟨rfl, heq⟩ | hwaiting
  · exact own ticket heq
  · exact getElem?_served_append (h.waiting run' ticket hwaiting) _

theorem finished_advance (h : Follows query bindings events s)
    (own : ∀ result, stage = .finished result →
      Concluded query bindings (events ++ [event]) run result)
    (run' : ι) (result : Except RunError Value)
    (hfinished : (s.advance run stage).stages run' = .finished result) :
    Concluded query bindings (events ++ [event]) run' result := by
  rcases stages_advance_eq hfinished with ⟨rfl, heq⟩ | hfinished
  · exact own result heq
  · exact (h.finished run' result hfinished).append _

/-- Bindings that fail their checks end the run, and no request is sent. -/
theorem refuse (h : Follows query bindings events s) (hready : s.stages run = .ready)
    {error : BindingError} (hrefused : query.accepts (bindings run) = false)
    (checked : query.document.checkBindings query.table (bindings run) = .error error) :
    Follows query bindings (events ++ [.send run])
      (s.advance run (.finished (.error (.binding error)))) where
  unchanged := h.unchanged
  sent := by
    have hserved : served query bindings [.send run] = [] := by simp [served, senders, hrefused]
    rw [served_append, hserved, List.append_nil]
    exact h.sent
  once := h.once_send hready
  begun run' := by
    rw [senders_append_send]
    exact h.begun_advance run (Stage.finished_ne_ready _) run'
  answered := h.answered_append nofun
  waiting := h.waiting_advance nofun
  finished := by
    apply h.finished_advance
    rintro _ ⟨⟩
    exact .refused checked

/-- The request of a run whose bindings pass goes to the end of the others. -/
theorem serve (h : Follows query bindings events s) (hready : s.stages run = .ready)
    (haccepted : query.accepts (bindings run) = true) :
    Follows query bindings (events ++ [.send run])
      { s.advance run (.waiting s.sent.length) with
        sent := s.sent ++ [query.requestOf (bindings run)] } := by
  have hserved : served query bindings (events ++ [.send run]) =
      served query bindings events ++ [run] := by
    rw [served_append]
    simp [served, senders, haccepted]
  constructor
  case unchanged => exact h.unchanged
  case sent => rw [hserved, List.map_append, ← h.sent, List.map_singleton]
  case once => exact h.once_send hready
  case begun =>
    rw [senders_append_send]
    exact h.begun_advance run (Stage.waiting_ne_ready _)
  case answered => exact h.answered_append nofun
  case waiting =>
    apply h.waiting_advance
    rintro _ ⟨⟩
    -- The ticket of a request is its place among the requests.
    rw [hserved, h.sent, List.length_map, List.getElem?_concat_length]
  case finished => exact h.finished_advance nofun

/-- A run ends with what its own answer gives. -/
theorem receive (h : Follows query bindings events s) {ticket : Nat}
    (hwaiting : s.stages run = .waiting ticket) {given : Answer}
    (hgiven : s.answers ticket = some given) :
    Follows query bindings (events ++ [.receive run])
      (s.advance run (.finished (s.query.receive given))) := by
  have hsenders : senders (events ++ [.receive run]) = senders events :=
    senders_append_of_nil rfl
  have hserved : served query bindings (events ++ [.receive run]) =
      served query bindings events := served_append_of_nil rfl
  constructor
  case unchanged => exact h.unchanged
  case sent => exact hserved ▸ h.sent
  case once => exact hsenders ▸ h.once
  case begun =>
    have hmem : run ∈ senders events := by
      rw [h.begun, hwaiting]
      exact Stage.waiting_ne_ready ticket
    intro run'
    rw [hsenders, ← h.begun_advance run (Stage.finished_ne_ready _) run', List.mem_append,
      List.mem_singleton]
    constructor
    · exact Or.inl
    · rintro (hmem' | rfl)
      · exact hmem'
      · exact hmem
  case answered => exact h.answered_append nofun
  case waiting => exact h.waiting_advance nofun
  case finished =>
    apply h.finished_advance
    rintro _ ⟨⟩
    rw [h.unchanged]
    have hconcluded := concluded_receive (h.waiting run ticket hwaiting)
      ((h.answered ticket given).mp hgiven)
    exact hconcluded.append _

/-- Whatever happens next, the exchange is still what has happened makes of it. -/
theorem step (h : Follows query bindings events s)
    (happens : s.step bindings event = some s') :
    Follows query bindings (events ++ [event]) s' := by
  cases event with
  | send run =>
    unfold Exchange.step at happens
    dsimp only at happens
    split at happens
    · next hready =>
      rw [h.unchanged] at happens
      cases haccepted : query.accepts (bindings run) with
      | true =>
        rw [Query.send_of_accepts haccepted] at happens
        cases happens
        exact h.serve hready haccepted
      | false =>
        obtain ⟨error, checked⟩ := Query.exists_of_not_accepts haccepted
        rw [Query.send_of_refused checked] at happens
        cases happens
        exact h.refuse hready haccepted checked
    · cases happens
  | answer ticket given =>
    unfold Exchange.step at happens
    dsimp only at happens
    split at happens
    · next hopen =>
      cases happens
      exact h.answer (Option.isNone_iff_eq_none.mp hopen.2) given
    · cases happens
  | receive run =>
    unfold Exchange.step at happens
    dsimp only at happens
    split at happens
    · next ticket hwaiting =>
      split at happens
      · next given hgiven =>
        cases happens
        exact h.receive hwaiting hgiven
      · cases happens
    · cases happens

end Follows

/-- Whatever has happened, in whatever order, makes of the exchange what `Follows` says. -/
theorem follows_of_foldlM
    (happened : events.foldlM (Exchange.step bindings) (start query) = some s) :
    Follows query bindings events s := by
  induction events using List.reverseRecOn generalizing s with
  | nil =>
    cases happened
    exact follows_start
  | append_singleton events event ih =>
    rw [List.foldlM_append] at happened
    obtain ⟨before, hbefore, hlast⟩ := Option.bind_eq_some_iff.mp happened
    rw [List.foldlM_cons] at hlast
    obtain ⟨after, hafter, heq⟩ := Option.bind_eq_some_iff.mp hlast
    cases heq
    exact (ih hbefore).step hafter

/-- The next step of the run is open to it, unless it waits for its answer. Then the transport can
answer, whatever the answer is. -/
def GoesOn (bindings : ι → Bindings) (s : Exchange ι) (run : ι) : Prop :=
  match s.stages run with
  | .ready => (s.step bindings (.send run)).isSome
  | .waiting ticket =>
    match s.answers ticket with
    | none => ∀ given, (s.step bindings (.answer ticket given)).isSome
    | some _ => (s.step bindings (.receive run)).isSome
  | .finished _ => True

theorem Follows.goesOn (h : Follows query bindings events s) (run : ι) :
    s.GoesOn bindings run := by
  unfold GoesOn
  split
  · next hready =>
    simp only [Exchange.step, hready]
    split <;> rfl
  · next ticket hwaiting =>
    split
    · next hopen =>
      intro given
      have hticket : ticket < s.sent.length := by
        rw [h.sent, List.length_map]
        exact (List.getElem?_eq_some_iff.mp (h.waiting run ticket hwaiting)).1
      simp [Exchange.step, hticket, hopen]
    · next given hgiven => simp [Exchange.step, hwaiting, hgiven]
  · trivial

end Exchange

namespace Query

open Exchange

/-- Whatever has happened to runs that share a query, in whatever order: the query is as before; the
transport has had one request of each run that began with bindings that pass, in the order in which
they began, and no other; each run that has ended has ended with what its bindings and the one
answer to its own request make of it, as it would alone; and no run keeps another from going on. -/
theorem runs_stay_apart {ι : Type} [DecidableEq ι] (query : Query) (bindings : ι → Bindings)
    {events : List (Event ι)} {s : Exchange ι}
    (happened : events.foldlM (Exchange.step bindings) (start query) = some s) :
    s.query = query ∧
      s.sent = (served query bindings events).map (fun run => query.requestOf (bindings run)) ∧
      (senders events).Nodup ∧ (∀ run, run ∈ senders events ↔ s.stages run ≠ .ready) ∧
      (∀ run result, s.stages run = .finished result →
        Concluded query bindings events run result ∧
        ∃ given : Answer, (query.run (fun _ => given) (bindings run)).result = result) ∧
      (∀ ticket given given', .answer ticket given ∈ events → .answer ticket given' ∈ events →
        given = given') ∧
      ∀ run, s.GoesOn bindings run := by
  have follows := follows_of_foldlM happened
  refine ⟨follows.unchanged, follows.sent, follows.once, follows.begun, ?_, ?_, follows.goesOn⟩
  · intro run result hfinished
    have hconcluded := follows.finished run result hfinished
    exact ⟨hconcluded, hconcluded.exists_run⟩
  · intro ticket given given' h h'
    rw [← follows.answered] at h h'
    exact Option.some.inj (h.symm.trans h')

/-- The number of an order. -/
def orderNumber : Group :=
  .ofList [("order", .group (some (.ofList none [("id", ⟨"$id", "ID!"⟩)]))
    [("number", .scalar none "Int!")])]

def orderQuery : Query :=
  { document := ⟨some "GetOrder", [⟨"id", .nonNull (.named "ID")⟩],
      Node.selections orderNumber.children⟩
    shape := Node.shape .builtin orderNumber.children
    table := .builtin }

/-- The first of three runs binds nothing. -/
def orderBindings (run : Fin 3) : Bindings :=
  if run = 0 then .empty
  else ⟨[("id", .string (if run = 1 then "a" else "b"))], List.pairwise_singleton _ _⟩

def orderResponse : Json :=
  .object [("order", .object [("number", .number (.integer (.ofInt64 7)))])]

/-- The last run begins after the others and ends before one of them. -/
def orderEvents : List (Event (Fin 3)) :=
  [.send 1, .send 0, .send 2, .answer 1 (.error ⟨"connection reset"⟩), .receive 2,
    .answer 0 (.ok orderResponse), .receive 1]

theorem runs_stay_apart_orders :
    orderNumber.compile (some "GetOrder") .builtin = .ok orderQuery ∧
    ∃ s, orderEvents.foldlM (Exchange.step orderBindings) (start orderQuery) = some s ∧
      s.sent = [orderQuery.requestOf (orderBindings 1), orderQuery.requestOf (orderBindings 2)] ∧
      Concluded orderQuery orderBindings orderEvents 0
        (.error (.binding (.missingVariable "id"))) ∧
      Concluded orderQuery orderBindings orderEvents 1
        (.ok (.object [("order", .object [("number", .integer 7)])])) ∧
      Concluded orderQuery orderBindings orderEvents 2
        (.error (.transport ⟨"connection reset"⟩)) := by
  have compiled : orderNumber.compile (some "GetOrder") .builtin = .ok orderQuery := by
    with_unfolding_all rfl
  obtain ⟨s, happened⟩ : ∃ s, orderEvents.foldlM (Exchange.step orderBindings)
      (start orderQuery) = some s := ⟨_, rfl⟩
  have hstage : ∀ {run : Fin 3} {stage : Stage},
      (orderEvents.foldlM (Exchange.step orderBindings) (start orderQuery)).map
        (fun s => s.stages run) = some stage → s.stages run = stage := by
    intro run stage h
    rw [happened] at h
    exact Option.some.inj h
  have hdecoded : orderQuery.receive (.ok orderResponse) =
      .ok (.object [("order", .object [("number", .integer 7)])]) := by with_unfolding_all rfl
  obtain ⟨-, hsent, -, -, hfinished, -⟩ := runs_stay_apart orderQuery orderBindings happened
  have hdone : s.stages 1 = .finished (orderQuery.receive (.ok orderResponse)) := hstage rfl
  rw [hdecoded] at hdone
  exact ⟨compiled, s, happened, hsent, (hfinished 0 _ (hstage rfl)).1, (hfinished 1 _ hdone).1,
    (hfinished 2 _ (hstage rfl)).1⟩

end Query

end WireQuery
