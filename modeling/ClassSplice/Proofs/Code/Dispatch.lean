import ClassSplice.Proofs.Layout.Calls

namespace ClassSplice.Code

namespace HandlerTable

variable {table one other : HandlerTable} {catches : Pool.Index → Bool} {pos pos' : Nat}

def dispatch (table : HandlerTable) (catches : Pool.Index → Bool) (pos : Nat) : Option Nat :=
  (table.find? fun handler => handler.covers pos && catches handler.catchType).map fun handler =>
    handler.target.toNat

theorem dispatch_append :
    (one ++ other : HandlerTable).dispatch catches pos =
      (one.dispatch catches pos).or (other.dispatch catches pos) := by
  rw [dispatch, List.find?_append, Option.map_or]
  rfl

theorem dispatch_eq_none (uncovered : ∀ handler ∈ table, handler.covers pos = false) :
    table.dispatch catches pos = none := by
  rw [dispatch, Option.map_eq_none_iff, List.find?_eq_none]
  intro handler member
  simp [uncovered handler member]

theorem mem_of_dispatch {target : Nat} (found : table.dispatch catches pos = some target) :
    ∃ handler ∈ table, handler.target.toNat = target := by
  obtain ⟨handler, first, same⟩ := Option.map_eq_some_iff.1 found
  exact ⟨handler, List.mem_of_find?_eq_some first, same⟩

theorem dispatch_singleton (handler : Handler) :
    dispatch [handler] catches pos =
      if handler.covers pos = true ∧ catches handler.catchType = true then some handler.target.toNat
      else none := by
  rw [dispatch, List.find?_singleton]
  simp only [Bool.and_eq_true]
  split <;> rfl

theorem dispatch_map {moved : Nat → Nat} (same : List.Forall₂ (fun before after : Handler =>
      after.covers pos' = before.covers pos ∧ after.target.toNat = moved before.target.toNat ∧
        after.catchType = before.catchType) one other) :
    other.dispatch catches pos' = (one.dispatch catches pos).map moved := by
  induction same with
  | nil => rfl
  | @cons before after befores afters first _ ih =>
      obtain ⟨covers, target, catchType⟩ := first
      show dispatch ([after] ++ afters) catches pos' =
        (dispatch ([before] ++ befores) catches pos).map moved
      rw [dispatch_append, dispatch_append, ih, dispatch_singleton, dispatch_singleton, covers, target,
        catchType, Option.map_or]
      split <;> rfl

end HandlerTable

structure Handler.LiesOn (listing : Listing) (handler : Handler) : Prop where
  start : listing.IsBoundary handler.start.toNat
  stop : listing.IsBoundary handler.stop.toNat
  target : listing.IsBoundary handler.target.toNat

def Weaving.Spans (weaving : Weaving) (pos : Nat) (located : Located) (offset : Nat) : Prop :=
  weaving.enter pos ≤ offset ∧ offset < weaving.enter (pos + located.length)

section Woven

variable {base code : Array UInt8} {old : Listing} {weaving : Weaving} {pos pos' offset : Nat}
  {located : Located} {before after : Handler} {table table' : HandlerTable}
  {catches : Pool.Index → Bool}

theorem Woven.enter_le (woven : Woven old weaving code) (boundary : old.IsBoundary pos)
    (boundary' : old.IsBoundary pos') (le : pos ≤ pos') : weaving.enter pos ≤ weaving.enter pos' := by
  rcases Nat.lt_or_eq_of_le le with less | rfl
  · exact Nat.le_of_lt (woven.enter_lt boundary boundary' less)
  · exact Nat.le_refl _

theorem Woven.enter_le_iff (decoded : Listing.decode base = .ok old) (woven : Woven old weaving code)
    (member : (pos, located) ∈ old.entries) (spans : weaving.Spans pos located offset)
    (boundary : old.IsBoundary pos') : weaving.enter pos' ≤ offset ↔ pos' ≤ pos := by
  constructor
  · intro reached
    by_contra beyond
    have behind := behind_le_of_lt decoded member boundary (Nat.lt_of_not_le beyond)
    have := woven.enter_le (isBoundary_behind decoded member) boundary behind
    have := spans.2
    omega
  · intro le
    exact Nat.le_trans (woven.enter_le boundary (.inr ⟨located, member⟩) le) spans.1

theorem Handler.Carried.covers (decoded : Listing.decode base = .ok old)
    (woven : Woven old weaving code) (carried : Handler.Carried weaving before after)
    (lies : before.LiesOn old) (member : (pos, located) ∈ old.entries)
    (spans : weaving.Spans pos located offset) : after.covers offset = before.covers pos := by
  have start := woven.enter_le_iff decoded member spans lies.start
  have stop := woven.enter_le_iff decoded member spans lies.stop
  rw [← carried.start] at start
  rw [← carried.stop] at stop
  rw [Bool.eq_iff_iff]
  simp only [Handler.covers, Bool.and_eq_true, decide_eq_true_eq, start, ← Nat.not_le, stop]

theorem Woven.dispatch (decoded : Listing.decode base = .ok old) (woven : Woven old weaving code)
    (carried : List.Forall₂ (Handler.Carried weaving) table table')
    (lies : ∀ handler ∈ table, handler.LiesOn old) (member : (pos, located) ∈ old.entries)
    (spans : weaving.Spans pos located offset) :
    table'.dispatch catches offset = (table.dispatch catches pos).map weaving.enter := by
  apply HandlerTable.dispatch_map
  have both := (List.forall₂_and_left _ _).2 ⟨lies, carried⟩
  refine both.imp fun before after ⟨lies, moved⟩ => ⟨?_, moved.target, moved.catchType⟩
  exact moved.covers decoded woven lies member spans

end Woven
end ClassSplice.Code
