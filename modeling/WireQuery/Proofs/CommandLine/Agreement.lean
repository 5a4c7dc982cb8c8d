import WireQuery.Proofs.CommandLine.Inputs
import WireQuery.Proofs.Document.Layout
import WireQuery.Proofs.Json.FirstMember

/-!
# Commands agree on a specification

Every command loads its specification before anything else, and the same way. So where the check of
a specification fails all commands fail with its error, whatever their other inputs are. Where it
succeeds, the document that is written is the one that is sent.
-/

namespace WireQuery.CommandLine
set_option autoImplicit false

/-- The specification of a command. -/
def Command.spec : Command → SpecSource
  | compile spec _ | check spec | types spec _ _ | request spec _ _ | reshape spec _ _ => spec

theorem Outcome.exists_of_error_eq_none {result : Except CommandError String}
    (h : (ofResult result).error = none) : ∃ printed, result = .ok printed := by
  cases result with
  | error e => cases h
  | ok printed => exact ⟨printed, rfl⟩

theorem query_of_send {query : Query} {bindings : Bindings} {request : Request}
    (h : query.send bindings = .ok request) : request.query = query.text := by
  unfold Query.send at h
  cases hbuilt : Request.ofBindings query bindings with
  | error e =>
    rw [hbuilt] at h
    cases h
  | ok built =>
    rw [hbuilt] at h
    cases h
    obtain ⟨_, -, heq⟩ := Outcome.bind_eq_ok.mp hbuilt
    cases heq
    rfl

/-- The text of a request is the first member of its body, and no other has its name. -/
theorem exists_members_of_request (request : Request) : ∃ members,
    request.toJson = .object (("query", .string request.query) :: members) ∧
      Keyed.DistinctKeys (("query", .string request.query) :: members) := by
  refine ⟨_, rfl, ?_⟩
  cases request.operationName <;> simp

namespace World

variable {σ : Type} {world : World σ} {s s' : σ}

theorem attempt_query_reused {spec : SpecSource} (h : ¬ ReadOnce [spec.path, spec.scalars]) :
    world.attempt s (Task.query spec) = (.error .inputReused, s) :=
  attempt_bind_error (attempt_checkInputs_reused h) _

/-- A command that checks its inputs before it loads its specification fails as the specification
does, unless an input of its own takes the standard input again. -/
theorem attempt_checked_query_error {spec : SpecSource} {paths : List (Option String)}
    {e : CommandError} {α : Type} (next : Query → Task α)
    (h : world.attempt s (Task.query spec) = (.error e, s'))
    (inputs : ReadOnce [spec.path, spec.scalars] → ReadOnce paths) :
    world.attempt s (Task.checkInputs paths >>= fun _ => Task.query spec >>= next) =
      (.error e, s') := by
  by_cases hpaths : ReadOnce paths
  · rw [attempt_bind_ok (attempt_checkInputs_once hpaths)]
    exact attempt_bind_error h next
  · rw [attempt_query_reused (mt inputs hpaths)] at h
    cases h
    exact attempt_bind_error (attempt_checkInputs_reused hpaths) _

theorem attempt_ofCommand_error {command : Command} {e : CommandError}
    (h : world.attempt s (Task.query command.spec) = (.error e, s'))
    (inputs : ReadOnce (Command.check command.spec).inputs → ReadOnce command.inputs) :
    world.attempt s (Task.ofCommand command) = (.error e, s') := by
  cases command with
  | compile spec style => exact attempt_bind_error h _
  | check spec => exact attempt_bind_error h _
  | types spec choices output => exact attempt_bind_error h _
  | request spec bindings style => exact attempt_checked_query_error _ h inputs
  | reshape spec response style => exact attempt_checked_query_error _ h inputs

theorem exists_compiled_of_attempt_query {spec : SpecSource} {query : Query}
    (h : (world.attempt s (Task.query spec)).1 = .ok query) :
    ∃ (root : Group) (table : ScalarTable),
      root.compile spec.operationName table = .ok query := by
  obtain ⟨_, _, -, h⟩ := exists_of_attempt_bind h
  obtain ⟨root, _, -, h⟩ := exists_of_attempt_bind h
  obtain ⟨table, _, -, h⟩ := exists_of_attempt_bind h
  refine ⟨root, table, ?_⟩
  cases hcompile : root.compile spec.operationName table with
  | error e =>
    rw [hcompile] at h
    cases h
  | ok compiled =>
    rw [hcompile] at h
    cases h
    rfl

/-- A request that is printed carries the text of the query. -/
theorem exists_request_of_attempt {spec : SpecSource} {bindings : Option String}
    {style : TextStyle} {query : Query} {printed : String}
    (hquery : world.attempt s (Task.query spec) = (.ok query, s'))
    (h : (world.attempt s (Task.ofCommand (.request spec bindings style))).1 = .ok printed) :
    ∃ request : Request, request.query = query.text ∧ printed = request.write style ++ "\n" := by
  have hpaths : ReadOnce [spec.path, spec.scalars, bindings] := by
    by_contra hpaths
    rw [Task.ofCommand, attempt_bind_error (attempt_checkInputs_reused hpaths)] at h
    cases h
  rw [Task.ofCommand, attempt_bind_ok (attempt_checkInputs_once hpaths),
    attempt_bind_ok hquery] at h
  obtain ⟨values, _, -, h⟩ := exists_of_attempt_bind h
  cases hsend : query.send values with
  | error e =>
    rw [hsend] at h
    cases h
  | ok request =>
    rw [hsend] at h
    cases h
    exact ⟨request, query_of_send hsend, rfl⟩

/-- The body that is printed for a request has the text of the query as its first member. -/
theorem exists_body_of_outcome {spec : SpecSource} {bindings : Option String} {style : TextStyle}
    {query : Query} (hquery : world.attempt s (Task.query spec) = (.ok query, s'))
    (h : (world.outcome s (.request spec bindings style)).error = none) :
    ∃ members, Keyed.DistinctKeys (("query", .string query.text) :: members) ∧
      (world.outcome s (.request spec bindings style)).printed =
        (Json.object (("query", .string query.text) :: members)).write style ++ "\n" := by
  rw [outcome_eq] at h ⊢
  obtain ⟨printed, hprinted⟩ := Outcome.exists_of_error_eq_none h
  obtain ⟨request, htext, rfl⟩ := exists_request_of_attempt hquery hprinted
  obtain ⟨members, hbody, distinct⟩ := exists_members_of_request request
  rw [htext] at hbody distinct
  exact ⟨members, distinct, by rw [hprinted, ← hbody]; rfl⟩

/-- If the check of a specification fails, so does every command with it, unless an input of its own
takes the standard input again: it prints nothing but the same error. If the check succeeds, the
document is written on one line, and the body of every request that is printed has this line as its
member `query`. -/
theorem commands_agree (world : World σ) (s : σ) (spec : SpecSource) :
    (∀ error, (world.outcome s (.check spec)).error = some error →
      ∀ command : Command, command.spec = spec →
        (ReadOnce (Command.check spec).inputs → ReadOnce command.inputs) →
          world.outcome s command = ⟨"", some error⟩) ∧
    ((world.outcome s (.check spec)).error = none →
      (∀ style, (world.outcome s (.compile spec style)).error = none) ∧
      ∃ line : String, '\n' ∉ line.toList ∧
        world.outcome s (.compile spec .compact) = ⟨line ++ "\n", none⟩ ∧
        ∀ bindings style, (world.outcome s (.request spec bindings style)).error = none →
          ∃ members : List (String × Json),
            (world.outcome s (.request spec bindings style)).printed =
              (Json.object members).write style ++ "\n" ∧
            Keyed.DistinctKeys members ∧ members.lookup "query" = some (.string line) ∧
            Json.firstMember (world.outcome s (.request spec bindings style)).printed =
              .ok ("query", .string line)) := by
  obtain ⟨result, s', hquery⟩ : ∃ result s', world.attempt s (Task.query spec) = (result, s') :=
    ⟨_, _, rfl⟩
  cases result with
  | error e =>
    have hcheck : world.outcome s (.check spec) = .ofResult (.error e) := by
      rw [outcome_eq, Task.ofCommand, attempt_bind_error hquery]
    rw [hcheck]
    refine ⟨?_, nofun⟩
    rintro error ⟨⟩ command rfl inputs
    rw [outcome_eq, attempt_ofCommand_error hquery inputs]
    rfl
  | ok query =>
    have hcheck : world.outcome s (.check spec) = .ofResult (.ok "") := by
      rw [outcome_eq, Task.ofCommand, attempt_bind_ok hquery]
      rfl
    have hcompile : ∀ style, world.outcome s (.compile spec style) =
        .ofResult (.ok (query.document.write style ++ "\n")) := by
      intro style
      rw [outcome_eq, Task.ofCommand, attempt_bind_ok hquery]
      rfl
    obtain ⟨root, table, compiled⟩ := exists_compiled_of_attempt_query (congrArg Prod.fst hquery)
    rw [hcheck]
    refine ⟨nofun, fun _ => ⟨?_, query.text, ?_, hcompile .compact, ?_⟩⟩
    · intro style
      rw [hcompile]
      rfl
    · exact Document.newLine_not_mem_text (Group.document_wellFormed compiled)
    · intro bindings style hsucceeds
      obtain ⟨members, distinct, hprinted⟩ := exists_body_of_outcome hquery hsucceeds
      refine ⟨_, hprinted, distinct, List.lookup_cons_self, ?_⟩
      rw [hprinted]
      exact Json.firstMember_write "query" query.text members style "\n"

/-- The total of an order, which is looked up by its identifier. -/
def orderText : String :=
  "\x7b\"order\": \x7b\"$op\": \x7b\"args\": \x7b\"id\": [\"$id\", \"ID!\"]\x7d, " ++
    "\"body\": \x7b\"total\": \"Int\"\x7d\x7d\x7d\x7d"

/-- A specification and bindings for it; there is no other file. -/
def shop : World Unit where
  read _ source :=
    match source with
    | .file "order.json" => (.ok orderText, ())
    | .file "vars.json" => (.ok "\x7b\"id\": \"o-1\"\x7d", ())
    | _ => (.error .notFound, ())
  write _ _ _ := (.ok (), ())

theorem commands_agree_shop :
    shop.outcome () (.reshape ⟨"lost.json", none, none⟩ "vars.json" .indented) =
        ⟨"", some "error: failed to read lost.json: No such file or directory (os error 2)"⟩ ∧
      ∃ line : String, shop.outcome () (.compile ⟨"order.json", some "GetOrder", none⟩ .compact) =
          ⟨line ++ "\n", none⟩ ∧
        Json.firstMember (shop.outcome () (.request ⟨"order.json", some "GetOrder", none⟩
          (some "vars.json") .indented)).printed = .ok ("query", .string line) := by
  have lost : (shop.outcome () (.check ⟨"lost.json", none, none⟩)).error =
      some "error: failed to read lost.json: No such file or directory (os error 2)" := by
    decide +kernel
  have checked : (shop.outcome () (.check ⟨"order.json", some "GetOrder", none⟩)).error = none := by
    decide +kernel
  have sent : (shop.outcome () (.request ⟨"order.json", some "GetOrder", none⟩
      (some "vars.json") .indented)).error = none := by
    decide +kernel
  obtain ⟨fails, -⟩ := commands_agree shop () ⟨"lost.json", none, none⟩
  obtain ⟨-, succeeds⟩ := commands_agree shop () ⟨"order.json", some "GetOrder", none⟩
  obtain ⟨-, line, -, compiled, requests⟩ := succeeds checked
  obtain ⟨members, -, -, -, hbody⟩ := requests _ _ sent
  exact ⟨fails _ lost _ rfl (by decide), line, compiled, hbody⟩

end World

end WireQuery.CommandLine
