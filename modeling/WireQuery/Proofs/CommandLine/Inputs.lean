import WireQuery.Proofs.CommandLine.World

/-!
# Inputs of commands

A command names its inputs by paths and reads them one after another. Its inputs as a whole are a
list of texts, in which an input that is left out has none.
-/

namespace WireQuery.CommandLine
set_option autoImplicit false

/-- The paths of a command's inputs, in the order in which they are read. -/
def Command.inputs : Command → List (Option String)
  | compile spec _ | check spec | types spec _ _ => [spec.path, spec.scalars]
  | request spec bindings _ => [spec.path, spec.scalars, bindings]
  | reshape spec response _ => [spec.path, spec.scalars, response]

/-- At most one of the inputs is the standard input. -/
def ReadOnce (paths : List (Option String)) : Prop := paths.countP (· = some "-") ≤ 1

instance (paths : List (Option String)) : Decidable (ReadOnce paths) :=
  inferInstanceAs (Decidable (_ ≤ _))

/-- The texts of inputs that are read one after another. An input that is left out has none. -/
inductive World.Reads {σ : Type} (world : World σ) :
    σ → List (Option String) → List (Option String) → σ → Prop
  | nil (s : σ) : Reads world s [] [] s
  | skip {s s' : σ} {paths texts : List (Option String)} (rest : Reads world s paths texts s') :
      Reads world s (none :: paths) (none :: texts) s'
  | read {s mid s' : σ} {path text : String} {paths texts : List (Option String)}
      (answer : world.read s (.ofPath path) = (.ok text, mid))
      (rest : Reads world mid paths texts s') :
      Reads world s (some path :: paths) (some text :: texts) s'

/-- The scalar table of a text, and the builtin one if there is no text. -/
inductive TableOf : Option String → ScalarTable → Prop
  | builtin : TableOf none .builtin
  | extended {text : String} {table : ScalarTable} (read : ScalarTable.read text = .ok table) :
      TableOf (some text) table

/-- The bindings of a text, and no bindings if there is no text. -/
inductive BindingsOf : Option String → Bindings → Prop
  | none : BindingsOf none .empty
  | object {text : String} {members : List (String × Json)}
      (read : Json.read text = .ok (.object members)) :
      BindingsOf (some text) (.ofMembers members)

theorem ReadOnce.left {path scalars other : Option String}
    (h : ReadOnce [path, scalars, other]) : ReadOnce [path, scalars] :=
  Nat.le_trans (List.sublist_append_left [path, scalars] [other]).countP_le h

namespace World

variable {σ : Type} {world : World σ} {s s' : σ}

/-- Inputs may be read in two groups, one after the other. -/
theorem reads_append_iff {paths texts rest others : List (Option String)}
    (lengths : paths.length = texts.length) :
    world.Reads s (paths ++ rest) (texts ++ others) s' ↔
      ∃ mid, world.Reads s paths texts mid ∧ world.Reads mid rest others s' := by
  induction paths generalizing s texts with
  | nil =>
    obtain rfl := List.length_eq_zero_iff.mp lengths.symm
    constructor
    · intro h
      exact ⟨s, .nil s, h⟩
    · rintro ⟨_, ⟨⟩, h⟩
      exact h
  | cons path paths ih =>
    cases texts with
    | nil => cases lengths
    | cons text texts =>
      have same : paths.length = texts.length := Nat.succ.inj lengths
      constructor
      · intro h
        cases h with
        | skip h =>
          obtain ⟨mid, hpaths, hrest⟩ := (ih same).mp h
          exact ⟨mid, .skip hpaths, hrest⟩
        | read answer h =>
          obtain ⟨mid, hpaths, hrest⟩ := (ih same).mp h
          exact ⟨mid, .read answer hpaths, hrest⟩
      · rintro ⟨mid, hpaths, hrest⟩
        cases hpaths with
        | skip hpaths => exact .skip ((ih same).mpr ⟨mid, hpaths, hrest⟩)
        | read answer hpaths => exact .read answer ((ih same).mpr ⟨mid, hpaths, hrest⟩)

/-- The inputs of a specification are read before another input. -/
theorem reads_after_iff {path scalars other text table content : Option String} :
    world.Reads s [path, scalars, other] [text, table, content] s' ↔
      ∃ mid, world.Reads s [path, scalars] [text, table] mid ∧
        world.Reads mid [other] [content] s' :=
  @reads_append_iff _ _ s s' [path, scalars] [text, table] [other] [content] rfl

theorem reads_some_iff {path : String} {text : Option String} :
    world.Reads s [some path] [text] s' ↔
      ∃ content, text = some content ∧ world.read s (.ofPath path) = (.ok content, s') := by
  constructor
  · intro h
    cases h with
    | read answer empty =>
      cases empty
      exact ⟨_, rfl, answer⟩
  · rintro ⟨content, rfl, answer⟩
    exact .read answer (.nil s')

@[simp] theorem reads_none_iff {text : Option String} :
    world.Reads s [none] [text] s' ↔ text = none ∧ s' = s := by
  constructor
  · intro h
    cases h with
    | skip empty =>
      cases empty
      exact ⟨rfl, rfl⟩
  · rintro ⟨rfl, rfl⟩
    exact .skip (.nil s')

theorem attempt_checkInputs_once {paths : List (Option String)} (h : ReadOnce paths) :
    world.attempt s (Task.checkInputs paths) = (.ok (), s) := by
  rw [Task.checkInputs, if_neg (Nat.not_lt.mpr h)]
  rfl

theorem attempt_checkInputs_reused {paths : List (Option String)} (h : ¬ ReadOnce paths) :
    world.attempt s (Task.checkInputs paths) = (.error .inputReused, s) := by
  rw [Task.checkInputs, if_pos (Nat.not_le.mp h)]
  rfl

@[simp] theorem attempt_checkInputs_eq_ok {paths : List (Option String)} {passed : Unit} :
    world.attempt s (Task.checkInputs paths) = (.ok passed, s') ↔ ReadOnce paths ∧ s' = s := by
  by_cases h : ReadOnce paths
  · simp [attempt_checkInputs_once h, h, eq_comm]
  · simp [attempt_checkInputs_reused h, h]

theorem attempt_readText (path : String) :
    world.attempt s (Task.readText path) =
      ((world.read s (.ofPath path)).1.mapError (.read path),
        (world.read s (.ofPath path)).2) := by
  change world.run (world.read s (.ofPath path)).2 _ = _
  cases (world.read s (.ofPath path)).1 <;> rfl

@[simp] theorem attempt_readText_eq_ok {path text : String} :
    world.attempt s (Task.readText path) = (.ok text, s') ↔
      world.read s (.ofPath path) = (.ok text, s') := by
  rw [attempt_readText]
  rcases world.read s (.ofPath path) with ⟨failure | content, mid⟩
  · constructor <;> rintro ⟨⟩
  · constructor <;> rintro ⟨⟩ <;> rfl

theorem attempt_load_eq_ok {α : Type} {reader : String → Except Json.Error α} {path : String}
    {a : α} :
    world.attempt s (Task.load reader path) = (.ok a, s') ↔
      ∃ text, world.read s (.ofPath path) = (.ok text, s') ∧ reader text = .ok a := by
  rw [Task.load, attempt_bind_eq_ok]
  simp only [attempt_readText_eq_ok]
  constructor
  · rintro ⟨text, mid, hread, hending⟩
    split at hending
    next value hreader =>
      cases hending
      exact ⟨text, hread, hreader⟩
    next => cases hending
  · rintro ⟨text, hread, hreader⟩
    refine ⟨text, s', hread, ?_⟩
    rw [hreader]
    rfl

theorem attempt_scalars_eq_ok {path : Option String} {table : ScalarTable} :
    world.attempt s (Task.scalars path) = (.ok table, s') ↔
      ∃ text, world.Reads s [path] [text] s' ∧ TableOf text table := by
  cases path with
  | none =>
    constructor
    · rintro ⟨⟩
      exact ⟨none, .skip (.nil s), .builtin⟩
    · rintro ⟨text, hread, htable⟩
      obtain ⟨rfl, rfl⟩ := reads_none_iff.mp hread
      cases htable
      rfl
  | some path =>
    rw [Task.scalars, attempt_load_eq_ok]
    constructor
    · rintro ⟨text, hread, htable⟩
      exact ⟨some text, .read hread (.nil s'), .extended htable⟩
    · rintro ⟨text, hread, htable⟩
      obtain ⟨content, rfl, answer⟩ := reads_some_iff.mp hread
      cases htable with
      | extended htable => exact ⟨content, answer, htable⟩

theorem attempt_bindings_eq_ok {path : Option String} {bindings : Bindings} :
    world.attempt s (Task.bindings path) = (.ok bindings, s') ↔
      ∃ text, world.Reads s [path] [text] s' ∧ BindingsOf text bindings := by
  cases path with
  | none =>
    constructor
    · rintro ⟨⟩
      exact ⟨none, .skip (.nil s), .none⟩
    · rintro ⟨text, hread, hbindings⟩
      obtain ⟨rfl, rfl⟩ := reads_none_iff.mp hread
      cases hbindings
      rfl
  | some path =>
    rw [Task.bindings, attempt_bind_eq_ok]
    constructor
    · rintro ⟨value, mid, hload, hvalue⟩
      obtain ⟨text, hread, hjson⟩ := attempt_load_eq_ok.mp hload
      cases value with
      | object members =>
        cases hvalue
        exact ⟨some text, .read hread (.nil _), .object hjson⟩
      | _ => cases hvalue
    · rintro ⟨text, hread, hbindings⟩
      obtain ⟨content, rfl, answer⟩ := reads_some_iff.mp hread
      cases hbindings with
      | object hjson => exact ⟨_, s', attempt_load_eq_ok.mpr ⟨content, answer, hjson⟩, rfl⟩

end World

end WireQuery.CommandLine
