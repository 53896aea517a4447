import Mathlib

namespace ClassSplice

variable {ε α β : Type}

theorem bind_eq_ok {step : Except ε α} {rest : α → Except ε β} {result : β} :
    (step >>= rest) = .ok result ↔ ∃ value, step = .ok value ∧ rest value = .ok result := by
  cases step <;> simp [bind, Except.bind]

theorem ok_bind {value : α} {rest : α → Except ε β} :
    (Except.ok value >>= rest) = rest value :=
  rfl

theorem map_eq_ok {step : Except ε α} {f : α → β} {result : β} :
    step.map f = .ok result ↔ ∃ value, step = .ok value ∧ f value = result := by
  cases step <;> simp [Except.map]

theorem functor_map_eq_ok {step : Except ε α} {f : α → β} {result : β} :
    (f <$> step) = .ok result ↔ ∃ value, step = .ok value ∧ f value = result :=
  map_eq_ok

theorem pure_eq_ok {value result : α} :
    (pure value : Except ε α) = .ok result ↔ value = result := by
  simp [pure, Except.pure]

theorem mapM_eq_ok {step : α → Except ε β} {xs : List α} {ys : List β} :
    xs.mapM step = .ok ys ↔ List.Forall₂ (fun x y => step x = .ok y) xs ys := by
  induction xs generalizing ys with
  | nil =>
      rw [List.mapM_nil, pure_eq_ok, List.forall₂_nil_left_iff]
      exact eq_comm
  | cons x xs ih =>
      rw [List.mapM_cons, bind_eq_ok, List.forall₂_cons_left_iff]
      simp only [bind_eq_ok, pure_eq_ok, ih]
      constructor
      · rintro ⟨y, first, ys', rest, rfl⟩
        exact ⟨y, ys', first, rest, rfl⟩
      · rintro ⟨y, ys', first, rest, rfl⟩
        exact ⟨y, first, ys', rest, rfl⟩

theorem exists_forall₂ {related : α → β → Prop} {xs : List α}
    (each : ∀ x ∈ xs, ∃ y, related x y) : ∃ ys, List.Forall₂ related xs ys := by
  induction xs with
  | nil => exact ⟨[], .nil⟩
  | cons x xs ih =>
      obtain ⟨y, first⟩ := each x List.mem_cons_self
      obtain ⟨ys, rest⟩ := ih fun x member => each x (List.mem_cons_of_mem _ member)
      exact ⟨y :: ys, .cons first rest⟩

theorem exists_mapM {step : α → Except ε β} {xs : List α}
    (each : ∀ x ∈ xs, ∃ y, step x = .ok y) : ∃ ys, xs.mapM step = .ok ys :=
  (exists_forall₂ each).imp fun _ => mapM_eq_ok.2

theorem exists_of_mapM_eq_error {step : α → Except ε β} {xs : List α} {error : ε}
    (failed : xs.mapM step = .error error) : ∃ x ∈ xs, step x = .error error := by
  induction xs with
  | nil => cases failed
  | cons x xs ih =>
      rw [List.mapM_cons] at failed
      rcases first : step x with _ | y
      · rw [first] at failed
        cases failed
        exact ⟨x, List.mem_cons_self, first⟩
      · rcases rest : xs.mapM step with _ | ys
        · rw [first, rest] at failed
          cases failed
          obtain ⟨x', member, fails⟩ := ih rest
          exact ⟨x', List.mem_cons_of_mem _ member, fails⟩
        · rw [first, rest] at failed
          cases failed

theorem exists_foldlM {σ : Type} {step : σ → α → Except ε σ} {xs : List α}
    (each : ∀ x ∈ xs, ∀ state, ∃ state', step state x = .ok state') (state : σ) :
    ∃ state', xs.foldlM step state = .ok state' := by
  induction xs generalizing state with
  | nil => exact ⟨state, rfl⟩
  | cons x xs ih =>
      obtain ⟨middle, first⟩ := each x List.mem_cons_self state
      obtain ⟨last, rest⟩ := ih (fun x member => each x (List.mem_cons_of_mem _ member)) middle
      refine ⟨last, ?_⟩
      rw [List.foldlM_cons, first, ok_bind, rest]

theorem mapM_range_eq_ok {step : Nat → Except ε β} {count : Nat} {ys : List β} :
    (List.range count).mapM step = .ok ys ↔
      ys.length = count ∧ ∀ i (inRange : i < ys.length), step i = .ok ys[i] := by
  rw [mapM_eq_ok, List.forall₂_iff_get]
  simp only [List.length_range, List.get_eq_getElem, List.getElem_range]
  constructor
  · rintro ⟨rfl, each⟩
    exact ⟨rfl, fun i inRange => each i inRange inRange⟩
  · rintro ⟨rfl, each⟩
    exact ⟨rfl, fun i inRange _ => each i inRange⟩

theorem forall₂_mem_right {related : α → β → Prop} {xs : List α} {ys : List β}
    (each : List.Forall₂ related xs ys) {y : β} (member : y ∈ ys) : ∃ x ∈ xs, related x y := by
  induction each with
  | nil => cases member
  | cons first _ ih =>
      obtain rfl | later := List.mem_cons.1 member
      · exact ⟨_, List.mem_cons_self .., first⟩
      · obtain ⟨x, mem, related⟩ := ih later
        exact ⟨x, List.mem_cons_of_mem _ mem, related⟩

theorem forall₂_trans {γ : Type} {one : α → β → Prop} {other : β → γ → Prop} {both : α → γ → Prop}
    (compose : ∀ x y z, one x y → other y z → both x z) {xs : List α} {ys : List β} {zs : List γ}
    (first : List.Forall₂ one xs ys) (second : List.Forall₂ other ys zs) :
    List.Forall₂ both xs zs := by
  induction first generalizing zs with
  | nil =>
      cases second
      exact .nil
  | cons related _ ih =>
      cases second with
      | cons related' rest => exact .cons (compose _ _ _ related related') (ih rest)

section State

variable {σ : Type} {state state' : σ}

/-- What a step with a state comes to. -/
def outcome (step : ExceptT ε (StateM σ) α) (state : σ) : Except ε α × σ :=
  step state

theorem outcome_bind (step : ExceptT ε (StateM σ) α) (rest : α → ExceptT ε (StateM σ) β) :
    outcome (step >>= rest) state = match outcome step state with
      | (.ok value, middle) => outcome (rest value) middle
      | (.error error, middle) => (.error error, middle) := by
  simp only [outcome, Bind.bind, StateT.bind, ExceptT.bind, ExceptT.mk]
  rcases step state with ⟨error | value, middle⟩
  · rfl
  · rfl

theorem outcome_lift (step : Except ε α) :
    outcome (liftM step : ExceptT ε (StateM σ) α) state = (step, state) :=
  rfl

theorem outcome_get : outcome (get : ExceptT ε (StateM σ) σ) state = (.ok state, state) :=
  rfl

theorem outcome_modify (change : σ → σ) :
    outcome (modify change : ExceptT ε (StateM σ) PUnit) state = (.ok PUnit.unit, change state) :=
  rfl

theorem outcome_bind_eq_ok {step : ExceptT ε (StateM σ) α} {rest : α → ExceptT ε (StateM σ) β}
    {result : β} :
    outcome (step >>= rest) state = (.ok result, state') ↔
      ∃ value middle, outcome step state = (.ok value, middle) ∧
        outcome (rest value) middle = (.ok result, state') := by
  rw [outcome_bind]
  rcases outcome step state with ⟨error | value, middle⟩
  · constructor
    · intro failed
      cases failed
    · rintro ⟨_, _, ⟨⟩, _⟩
  · constructor
    · intro further
      exact ⟨value, middle, rfl, further⟩
    · rintro ⟨_, _, ⟨⟩, further⟩
      exact further

theorem outcome_bind_eq_error {step : ExceptT ε (StateM σ) α} {rest : α → ExceptT ε (StateM σ) β}
    {error : ε} :
    outcome (step >>= rest) state = (.error error, state') ↔
      outcome step state = (.error error, state') ∨
        ∃ value middle, outcome step state = (.ok value, middle) ∧
          outcome (rest value) middle = (.error error, state') := by
  rw [outcome_bind]
  rcases outcome step state with ⟨error' | value, middle⟩ <;> simp

theorem outcome_pure_eq_ok {value result : α} :
    outcome (pure value : ExceptT ε (StateM σ) α) state = (.ok result, state') ↔
      value = result ∧ state = state' := by
  show (Except.ok value, state) = _ ↔ _
  rw [Prod.mk.injEq, Except.ok.injEq]

theorem outcome_throw_ne_ok {error : ε} {result : α} :
    outcome (throw error : ExceptT ε (StateM σ) α) state ≠ (.ok result, state') := by
  show (Except.error error, state) ≠ _
  rintro ⟨⟩

theorem outcome_get_eq_ok {value : σ} :
    outcome (get : ExceptT ε (StateM σ) σ) state = (.ok value, state') ↔
      state = value ∧ state = state' := by
  show (Except.ok state, state) = _ ↔ _
  rw [Prod.mk.injEq, Except.ok.injEq]

theorem outcome_modify_eq_ok {change : σ → σ} {value : PUnit} :
    outcome (modify change : ExceptT ε (StateM σ) PUnit) state = (.ok value, state') ↔
      change state = state' := by
  show (Except.ok PUnit.unit, change state) = _ ↔ _
  rw [Prod.mk.injEq, Except.ok.injEq]
  exact and_iff_right rfl

end State

end ClassSplice
