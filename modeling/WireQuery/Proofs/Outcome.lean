import Mathlib.Data.List.Forall2

/-!
# Outcomes of checked steps

How a step in `Except` comes to succeed or to fail. A bind succeeds through both of its parts. A
fold and a map fail at the first element that is refused.
-/

namespace WireQuery.Outcome
set_option autoImplicit false

universe u v
variable {ε : Type u} {α β : Type v}

theorem bind_eq_ok {x : Except ε α} {f : α → Except ε β} {b : β} :
    x >>= f = .ok b ↔ ∃ a, x = .ok a ∧ f a = .ok b := by
  cases x with
  | error e => simp [bind, Except.bind]
  | ok a => simp [bind, Except.bind]

theorem bind_eq_error {x : Except ε α} {f : α → Except ε β} {e : ε} :
    x >>= f = .error e ↔ x = .error e ∨ ∃ a, x = .ok a ∧ f a = .error e := by
  cases x with
  | error e' => simp [bind, Except.bind]
  | ok a => simp [bind, Except.bind]

theorem map_eq_ok {x : Except ε α} {f : α → β} {b : β} :
    f <$> x = .ok b ↔ ∃ a, x = .ok a ∧ f a = b := by
  cases x with
  | error e => simp [Functor.map, Except.map]
  | ok a => simp [Functor.map, Except.map]

/-- A fold that fails has a first element that is refused. -/
theorem exists_of_foldlM_eq_error {step : β → α → Except ε β} {s : β} {xs : List α} {e : ε}
    (h : xs.foldlM step s = .error e) :
    ∃ before x rest s', xs = before ++ x :: rest ∧ before.foldlM step s = .ok s' ∧
      step s' x = .error e := by
  induction xs generalizing s with
  | nil => cases h
  | cons x rest ih =>
    rw [List.foldlM_cons] at h
    cases hx : step s x with
    | error e' =>
      rw [hx] at h
      cases h
      exact ⟨[], x, rest, s, rfl, rfl, hx⟩
    | ok next =>
      rw [hx] at h
      obtain ⟨before, y, last, s', rfl, hbefore, hy⟩ := ih h
      refine ⟨x :: before, y, last, s', rfl, ?_, hy⟩
      rw [List.foldlM_cons, hx]
      exact hbefore

/-- A fold that succeeds takes each of its elements. -/
theorem exists_of_foldlM_eq_ok {step : β → α → Except ε β} {s t : β} {before rest : List α} {x : α}
    (h : (before ++ x :: rest).foldlM step s = .ok t) :
    ∃ s' s'', before.foldlM step s = .ok s' ∧ step s' x = .ok s'' := by
  rw [List.foldlM_append] at h
  obtain ⟨s', hbefore, h⟩ := bind_eq_ok.mp h
  rw [List.foldlM_cons] at h
  obtain ⟨s'', hx, -⟩ := bind_eq_ok.mp h
  exact ⟨s', s'', hbefore, hx⟩

theorem mapM_eq_error {f : α → Except ε β} {xs : List α} {e : ε} :
    xs.mapM f = .error e ↔ ∃ x, xs.find? (fun x => !(f x).isOk) = some x ∧ f x = .error e := by
  induction xs with
  | nil => simp [pure, Except.pure]
  | cons x rest ih =>
    rw [List.mapM_cons]
    cases hx : f x with
    | error e' => simp [hx, Except.isOk, Except.toBool, bind, Except.bind]
    | ok b =>
      have hskip : (x :: rest).find? (fun x => !(f x).isOk) =
          rest.find? (fun x => !(f x).isOk) := by
        simp [hx, Except.isOk, Except.toBool]
      rw [hskip, ← ih]
      cases hrest : rest.mapM f with
      | error e' => simp [bind, Except.bind]
      | ok bs => simp [bind, Except.bind, pure, Except.pure]

theorem exists_mapM_eq_ok {f : α → Except ε β} {xs : List α} (h : ∀ x ∈ xs, ∃ b, f x = .ok b) :
    ∃ bs, xs.mapM f = .ok bs := by
  cases hmap : xs.mapM f with
  | ok bs => exact ⟨bs, rfl⟩
  | error e =>
    obtain ⟨x, hx, herror⟩ := mapM_eq_error.mp hmap
    obtain ⟨b, hb⟩ := h x (List.mem_of_find?_eq_some hx)
    rw [hb] at herror
    cases herror

/-- A map that succeeds gives for each element what the step gives for it. -/
theorem forall₂_of_mapM_eq_ok {f : α → Except ε β} {xs : List α} {bs : List β}
    (h : xs.mapM f = .ok bs) : List.Forall₂ (fun x b => f x = .ok b) xs bs := by
  induction xs generalizing bs with
  | nil =>
    cases h
    exact .nil
  | cons x rest ih =>
    rw [List.mapM_cons] at h
    obtain ⟨b, hx, h⟩ := bind_eq_ok.mp h
    obtain ⟨others, hrest, h⟩ := bind_eq_ok.mp h
    cases h
    exact .cons hx (ih hrest)

theorem exists_of_mapM_eq_ok {f : α → Except ε β} {xs : List α} {bs : List β}
    (h : xs.mapM f = .ok bs) {x : α} (hx : x ∈ xs) : ∃ b ∈ bs, f x = .ok b := by
  replace h := forall₂_of_mapM_eq_ok h
  induction h with
  | nil => cases hx
  | cons hfirst _ ih =>
    rcases List.mem_cons.mp hx with rfl | hx
    · exact ⟨_, List.mem_cons_self, hfirst⟩
    · obtain ⟨b, hb, hok⟩ := ih hx
      exact ⟨b, List.mem_cons_of_mem _ hb, hok⟩

theorem exists_mem_of_mapM_eq_ok {f : α → Except ε β} {xs : List α} {bs : List β}
    (h : xs.mapM f = .ok bs) {b : β} (hb : b ∈ bs) : ∃ x ∈ xs, f x = .ok b := by
  replace h := forall₂_of_mapM_eq_ok h
  induction h with
  | nil => cases hb
  | cons hfirst _ ih =>
    rcases List.mem_cons.mp hb with rfl | hb
    · exact ⟨_, List.mem_cons_self, hfirst⟩
    · obtain ⟨x, hx, hok⟩ := ih hb
      exact ⟨x, List.mem_cons_of_mem _ hx, hok⟩

/-- What a map that succeeds does to each element shows in a view of its results. -/
theorem map_of_mapM_eq_ok {γ : Type v} {f : α → Except ε β} {xs : List α} {bs : List β}
    (h : xs.mapM f = .ok bs) {g : β → γ} {k : α → γ} (hf : ∀ a b, f a = .ok b → g b = k a) :
    bs.map g = xs.map k := by
  replace h := forall₂_of_mapM_eq_ok h
  induction h with
  | nil => rfl
  | cons hfirst _ ih => rw [List.map_cons, List.map_cons, hf _ _ hfirst, ih]

theorem forM_eq_ok {f : α → Except ε PUnit} {xs : List α} :
    xs.forM f = .ok ⟨⟩ ↔ ∀ x ∈ xs, f x = .ok ⟨⟩ := by
  induction xs with
  | nil => simp [pure, Except.pure]
  | cons a rest ih =>
    change f a >>= (fun _ => rest.forM f) = .ok ⟨⟩ ↔ _
    rw [bind_eq_ok, List.forall_mem_cons, ← ih]
    constructor
    · rintro ⟨_, ha, hrest⟩
      exact ⟨ha, hrest⟩
    · rintro ⟨ha, hrest⟩
      exact ⟨⟨⟩, ha, hrest⟩

/-- A loop fails at the first element that is refused. -/
theorem forM_eq_error {f : α → Except ε PUnit} {xs : List α} {e : ε} :
    xs.forM f = .error e ↔ ∃ before x rest, xs = before ++ x :: rest ∧
      (∀ y ∈ before, f y = .ok ⟨⟩) ∧ f x = .error e := by
  induction xs with
  | nil => simp [pure, Except.pure]
  | cons a rest ih =>
    change f a >>= (fun _ => rest.forM f) = .error e ↔ _
    rw [bind_eq_error, ih]
    constructor
    · rintro (ha | ⟨_, ha, before, x, others, rfl, hbefore, hx⟩)
      · exact ⟨[], a, rest, rfl, nofun, ha⟩
      · exact ⟨a :: before, x, others, rfl, List.forall_mem_cons.mpr ⟨ha, hbefore⟩, hx⟩
    · rintro ⟨before, x, others, heq, hbefore, hx⟩
      cases before with
      | nil =>
        cases heq
        exact Or.inl hx
      | cons first before =>
        cases heq
        obtain ⟨ha, hbefore⟩ := List.forall_mem_cons.mp hbefore
        exact Or.inr ⟨⟨⟩, ha, before, x, others, rfl, hbefore, hx⟩

end WireQuery.Outcome
