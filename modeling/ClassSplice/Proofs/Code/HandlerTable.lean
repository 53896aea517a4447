import ClassSplice.Code.HandlerTable
import ClassSplice.Proofs.Except

namespace ClassSplice.Code

theorem narrow_eq_ok {pos : Nat} {word : UInt16} {error : Error} :
    (if pos ≤ 65535 then Except.ok (UInt16.ofNat pos) else .error error) = .ok word ↔
      word.toNat = pos := by
  split
  · rename_i fits
    rw [Except.ok.injEq]
    constructor
    · rintro rfl
      exact UInt16.toNat_ofNat_of_lt' (by simp [UInt16.size]; omega)
    · rintro rfl
      exact UInt16.ofNat_toNat
  · rename_i large
    constructor
    · rintro ⟨⟩
    · rintro rfl
      have := word.toNat_lt
      omega

namespace Handler

structure Spans (handler : Handler) (first last goal : Nat) : Prop where
  start : handler.start.toNat = first
  stop : handler.stop.toNat = last
  target : handler.target.toNat = goal
  nonempty : first < last

theorem offset_eq_ok {pos : Nat} {word : UInt16} : offset pos = .ok word ↔ word.toNat = pos :=
  narrow_eq_ok

theorem make_eq_ok {start stop target : Nat} {catchType : Pool.Index} {handler : Handler} :
    make start stop target catchType = .ok handler ↔
      handler.Spans start stop target ∧ handler.catchType = catchType := by
  rw [make]
  split
  · rename_i empty
    constructor
    · rintro ⟨⟩
    · rintro ⟨spans, _⟩
      exact absurd spans.nonempty (Nat.not_lt_of_le empty)
  · rename_i nonempty
    simp only [bind_eq_ok, pure_eq_ok, offset_eq_ok]
    constructor
    · rintro ⟨first, rfl, last, rfl, goal, rfl, rfl⟩
      exact ⟨⟨rfl, rfl, rfl, Nat.lt_of_not_le nonempty⟩, rfl⟩
    · rintro ⟨spans, rfl⟩
      exact ⟨_, spans.start, _, spans.stop, _, spans.target, rfl⟩

theorem relocate_eq_ok {relocated : Nat → Except Error Nat} {before after : Handler} :
    before.relocate relocated = .ok after ↔
      ∃ start stop target, relocated before.start.toNat = .ok start ∧
        relocated before.stop.toNat = .ok stop ∧ relocated before.target.toNat = .ok target ∧
        after.Spans start stop target ∧ after.catchType = before.catchType := by
  simp only [relocate, bind_eq_ok, make_eq_ok]
  constructor
  · rintro ⟨start, first, stop, last, target, goal, made⟩
    exact ⟨start, stop, target, first, last, goal, made⟩
  · rintro ⟨start, stop, target, first, last, goal, made⟩
    exact ⟨start, first, stop, last, target, goal, made⟩

end Handler

theorem checkedSum_eq_ok {left right sum : Nat} :
    checkedSum left right = .ok sum ↔ left + right < wordLimit ∧ left + right = sum := by
  unfold checkedSum
  split
  · rename_i word
    exact ⟨fun same => ⟨word, Except.ok.inj same⟩, fun same => congrArg Except.ok same.2⟩
  · rename_i wide
    exact ⟨nofun, fun same => absurd same.1 wide⟩

namespace HandlerTable

theorem relocate_eq_ok {relocated : Nat → Except Error Nat} {before after : HandlerTable} :
    before.relocate relocated = .ok after ↔
      List.Forall₂ (fun old new => Handler.relocate relocated old = .ok new) before after :=
  mapM_eq_ok

theorem shifted_zero {table result : HandlerTable} (done : table.shifted 0 = .ok result) :
    result = table := by
  have same {old new : Handler}
      (moved : old.relocate (checkedSum · 0) = .ok new) : new = old := by
    obtain ⟨start, stop, target, first, last, goal, spans, catchType⟩ :=
      Handler.relocate_eq_ok.1 moved
    obtain ⟨_, rfl⟩ := checkedSum_eq_ok.1 first
    obtain ⟨_, rfl⟩ := checkedSum_eq_ok.1 last
    obtain ⟨_, rfl⟩ := checkedSum_eq_ok.1 goal
    cases old
    cases new
    simp only [Handler.mk.injEq]
    exact ⟨UInt16.toNat_inj.1 spans.start, UInt16.toNat_inj.1 spans.stop,
      UInt16.toNat_inj.1 spans.target, catchType⟩
  rw [shifted, relocate_eq_ok] at done
  induction done with
  | nil => rfl
  | cons moved _ ih => rw [same moved, ih]

theorem prepend_zero {table fragment result : HandlerTable}
    (done : table.prepend fragment 0 = .ok result) : result = fragment ++ table := by
  obtain ⟨_, shifted, done⟩ := bind_eq_ok.1 done
  cases pure_eq_ok.1 done
  rw [shifted_zero shifted]

end HandlerTable
end ClassSplice.Code
