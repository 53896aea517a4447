import Mathlib

/-!
Runs of a system that goes from state to state until it comes to an outcome, or forever.

Main statements: `Follows.ends_iff` and `Follows.forever_iff` (a system that takes at least one step
for each step of another behaves like it).
-/

namespace ClassSplice.Machine

variable {σ τ ω : Type}

inductive Next (σ ω : Type) where
  | on (state : σ)
  | out (outcome : ω)

inductive Travels (step : σ → Next σ ω) : Nat → σ → σ → Prop
  | here {state : σ} : Travels step 0 state state
  | on {count : Nat} {first second last : σ} (steps : step first = .on second)
      (rest : Travels step count second last) : Travels step (count + 1) first last

def Reaches (step : σ → Next σ ω) (first last : σ) : Prop :=
  ∃ count, Travels step count first last

def Ends (step : σ → Next σ ω) (first : σ) (outcome : ω) : Prop :=
  ∃ last, Reaches step first last ∧ step last = .out outcome

def Forever (step : σ → Next σ ω) (first : σ) : Prop :=
  ∀ count, ∃ last, Travels step count first last

section Travels

variable {step : σ → Next σ ω} {first middle last : σ} {count more : Nat} {outcome outcome' : ω}

theorem Travels.trans (front : Travels step count first middle)
    (back : Travels step more middle last) : Travels step (count + more) first last := by
  induction front with
  | here => rwa [Nat.zero_add]
  | on steps _ ih =>
      rw [Nat.add_right_comm]
      exact .on steps (ih back)

theorem Travels.one (steps : step first = .on last) : Travels step 1 first last :=
  .on steps .here

theorem Travels.cancel (front : Travels step count first middle)
    (whole : Travels step (count + more) first last) : Travels step more middle last := by
  induction front with
  | here => rwa [Nat.zero_add] at whole
  | on steps _ ih =>
      rw [Nat.add_right_comm] at whole
      cases whole with
      | on steps' rest =>
          cases steps.symm.trans steps'
          exact ih rest

theorem Travels.split (whole : Travels step (count + more) first last) :
    ∃ middle, Travels step count first middle ∧ Travels step more middle last := by
  induction count generalizing first with
  | zero =>
      rw [Nat.zero_add] at whole
      exact ⟨first, .here, whole⟩
  | succ count ih =>
      rw [Nat.add_right_comm] at whole
      cases whole with
      | on steps rest =>
          obtain ⟨middle, front, back⟩ := ih rest
          exact ⟨middle, .on steps front, back⟩

theorem Reaches.refl : Reaches step first first :=
  ⟨0, .here⟩

theorem Reaches.on (reached : Reaches step first middle) (steps : step middle = .on last) :
    Reaches step first last := by
  obtain ⟨count, travels⟩ := reached
  exact ⟨count + 1, travels.trans (.one steps)⟩

theorem Ends.out (stops : step first = .out outcome) : Ends step first outcome :=
  ⟨first, .refl, stops⟩

theorem Travels.ends (travels : Travels step count first middle) (ends : Ends step middle outcome) :
    Ends step first outcome := by
  obtain ⟨last, ⟨more, rest⟩, stops⟩ := ends
  exact ⟨last, ⟨count + more, travels.trans rest⟩, stops⟩

theorem Ends.not_forever (ends : Ends step first outcome) : ¬ Forever step first := by
  intro forever
  obtain ⟨middle, ⟨count, travels⟩, stops⟩ := ends
  obtain ⟨last, further⟩ := forever (count + 1)
  cases travels.cancel further with
  | on steps _ => cases steps.symm.trans stops

theorem Ends.unique (ends : Ends step first outcome) (ends' : Ends step first outcome') :
    outcome = outcome' := by
  obtain ⟨last, ⟨count, travels⟩, stops⟩ := ends
  obtain ⟨last', ⟨count', travels'⟩, stops'⟩ := ends'
  rcases Nat.le_total count count' with le | le
  · obtain ⟨more, rfl⟩ := Nat.exists_eq_add_of_le le
    cases travels.cancel travels' with
    | here =>
        cases stops.symm.trans stops'
        rfl
    | on steps _ => cases steps.symm.trans stops
  · obtain ⟨more, rfl⟩ := Nat.exists_eq_add_of_le le
    cases travels'.cancel travels with
    | here =>
        cases stops.symm.trans stops'
        rfl
    | on steps _ => cases steps.symm.trans stops'

theorem ends_or_forever (step : σ → Next σ ω) (first : σ) :
    (∃ outcome, Ends step first outcome) ∨ Forever step first := by
  by_contra neither
  obtain ⟨never, stopped⟩ := not_or.1 neither
  apply stopped
  intro count
  induction count with
  | zero => exact ⟨first, .here⟩
  | succ count ih =>
      obtain ⟨middle, travels⟩ := ih
      cases next : step middle with
      | on last => exact ⟨last, travels.trans (.one next)⟩
      | out outcome => exact absurd ⟨outcome, middle, ⟨count, travels⟩, next⟩ never

end Travels

inductive Comes (step : σ → Next σ ω) (first : σ) : Next σ ω → Prop
  | on {count : Nat} {last : σ} (some : 0 < count) (travels : Travels step count first last) :
      Comes step first (.on last)
  | out {outcome : ω} (ends : Ends step first outcome) : Comes step first (.out outcome)

inductive Next.Related (related : σ → τ → Prop) : Next σ ω → Next τ ω → Prop
  | on {one : σ} {other : τ} (known : related one other) : Related related (.on one) (.on other)
  | out {outcome : ω} : Related related (.out outcome) (.out outcome)

def Follows (step : σ → Next σ ω) (step' : τ → Next τ ω) (related : σ → τ → Prop) : Prop :=
  ∀ (one : σ) (other : τ), related one other →
    ∃ next, Comes step' other next ∧ Next.Related related (step one) next

theorem Comes.step (step : σ → Next σ ω) (first : σ) : Comes step first (step first) := by
  cases next : step first with
  | on last => exact .on Nat.one_pos (.one next)
  | out outcome => exact .out (.out next)

theorem Travels.comes {step : σ → Next σ ω} {first middle : σ} {count : Nat} {next : Next σ ω}
    (travels : Travels step count first middle) (comes : Comes step middle next) :
    Comes step first next := by
  cases comes with
  | on some rest => exact .on (Nat.add_pos_right _ some) (travels.trans rest)
  | out ends => exact .out (travels.ends ends)

section Follows

variable {step : σ → Next σ ω} {step' : τ → Next τ ω} {related : σ → τ → Prop} {one last : σ}
  {other : τ} {outcome : ω} {count : Nat}

theorem Follows.travels (follows : Follows step step' related) (known : related one other)
    (travels : Travels step count one last) :
    ∃ count' last', count ≤ count' ∧ Travels step' count' other last' ∧ related last last' := by
  induction travels generalizing other with
  | here => exact ⟨0, other, Nat.le_refl _, .here, known⟩
  | on steps _ ih =>
      obtain ⟨next, comes, same⟩ := follows _ _ known
      rw [steps] at same
      cases same with
      | on known =>
          cases comes with
          | on some front =>
              obtain ⟨more, last', enough, back, known⟩ := ih known
              exact ⟨_, last', by omega, front.trans back, known⟩

theorem Follows.ends (follows : Follows step step' related) (known : related one other)
    (ends : Ends step one outcome) : Ends step' other outcome := by
  obtain ⟨last, ⟨count, travels⟩, stops⟩ := ends
  obtain ⟨count', last', _, travels', known⟩ := follows.travels known travels
  obtain ⟨next, comes, same⟩ := follows _ _ known
  rw [stops] at same
  cases same
  cases comes with
  | out ends => exact travels'.ends ends

theorem Follows.forever (follows : Follows step step' related) (known : related one other)
    (forever : Forever step one) : Forever step' other := by
  intro count
  obtain ⟨last, travels⟩ := forever count
  obtain ⟨count', last', enough, travels', _⟩ := follows.travels known travels
  obtain ⟨more, rfl⟩ := Nat.exists_eq_add_of_le enough
  obtain ⟨middle, front, _⟩ := travels'.split
  exact ⟨middle, front⟩

theorem Follows.ends_iff (follows : Follows step step' related) (known : related one other) :
    Ends step one outcome ↔ Ends step' other outcome := by
  refine ⟨follows.ends known, fun ends => ?_⟩
  rcases ends_or_forever step one with ⟨outcome', ends'⟩ | forever
  · rwa [(follows.ends known ends').unique ends] at ends'
  · exact absurd (follows.forever known forever) ends.not_forever

theorem Follows.forever_iff (follows : Follows step step' related) (known : related one other) :
    Forever step one ↔ Forever step' other := by
  refine ⟨follows.forever known, fun forever => ?_⟩
  rcases ends_or_forever step one with ⟨outcome, ends⟩ | forever'
  · exact absurd forever (follows.ends known ends).not_forever
  · exact forever'

end Follows

end ClassSplice.Machine
