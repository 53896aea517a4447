import ClassSplice.Edit.Body
import ClassSplice.Proofs.Layout.Calls

namespace ClassSplice.Edit

open Code (Cursor Holds Instruction Listing Located Opcode Reads Rewoven Runs Spelled Weaving Woven)

def callAt (call : Nat) (isWide : Bool) (distance : Int) : Located :=
  if isWide then ⟨5, .wideBranch Opcode.jsrW (call + (Int32.ofInt distance).toInt)⟩
  else ⟨3, .branch Opcode.jsr (call + (Int16.ofInt distance).toInt)⟩

def callGoal (call : Nat) (isWide : Bool) (distance : Int) : Int :=
  call + if isWide then (Int32.ofInt distance).toInt else (Int16.ofInt distance).toInt

theorem length_callBytes (isWide : Bool) (distance : Int) :
    (callBytes isWide distance).length = if isWide then 5 else 3 := by
  cases isWide with
  | false => rfl
  | true => rfl

theorem reads_callBytes {code : Array UInt8} {call : Nat} {isWide : Bool} {distance : Int}
    (held : Holds code call (callBytes isWide distance)) :
    Runs code call [(call, callAt call isWide distance)]
      (call + (callBytes isWide distance).length) := by
  have inCode := held.le_size
  rw [length_callBytes] at inCode ⊢
  cases isWide with
  | false =>
      obtain ⟨first, operand⟩ := Code.holds_cons.1 held
      exact .single (Code.reads_of_spelled
        (.branch (Code.byteAt_of_holds first) rfl (Code.i16At_i16 operand) inCode))
  | true =>
      obtain ⟨first, operand⟩ := Code.holds_cons.1 held
      exact .single (Code.reads_of_spelled
        (.wideBranch (Code.byteAt_of_holds first) rfl (Code.i32At_i32 operand) inCode))

/-- A call leads to the place it was made for, if that lies behind it and in reach. Its displacement
is kept modulo its width, so it leads to no other place of the code. -/
theorem callGoal_eq_iff {call target goal : Nat} {isWide : Bool}
    (narrow : isWide = false → target - call ≤ shortReach) (inCode : target ≤ Code.maxLength)
    (behind : call < goal) (inCode' : goal ≤ Code.maxLength) :
    callGoal call isWide (target - call) = goal ↔ target = goal := by
  simp only [Code.maxLength, shortReach] at *
  cases isWide with
  | false =>
      have short := narrow rfl
      simp only [callGoal, Bool.false_eq_true, if_false, Int16.toInt_ofInt, Int16.size, Int.bmod_def]
      omega
  | true =>
      simp only [callGoal, if_true, Int32.toInt_ofInt, Int32.size, Int.bmod_def]
      omega

section Rewoven

variable {base : Array UInt8} {old : Listing} {weaving : Weaving} {cursor next : Cursor}
  {here length : Nat}

theorem openCall_rewoven {call : Nat} {isWide : Bool} (decoded : Listing.decode base = .ok old)
    (woven : Woven old weaving cursor.code.bytes) (boundary : old.IsBoundary here)
    (empty : weaving.inserted here = [])
    (opened : openCall cursor (weaving.enter here) length = .ok (call, isWide, next)) :
    ∃ weaving', Rewoven old here weaving weaving' cursor.code next.code ∧
      weaving'.Blank here (if isWide then 5 else 3) ∧ call = weaving'.enter here ∧
      (isWide = false → subroutineAt next length - call ≤ shortReach) ∧
      ∀ {pos : Nat}, old.IsBoundary pos →
        openCall (cursor.moveTo (weaving.enter pos)) (weaving.enter here) length =
          .ok (call, isWide, next.moveTo (weaving'.enter pos)) := by
  have blank : weaving.Blank here 0 := by
    unfold Weaving.Blank
    rw [empty]
    rfl
  have same (pos : Nat) : subroutineAt (cursor.moveTo pos) length = subroutineAt cursor length := rfl
  unfold openCall at opened ⊢
  by_cases far : shortReach - 5 < subroutineAt cursor length - weaving.enter here
  · simp only [same, if_pos far, bind_eq_ok, pure_eq_ok] at opened ⊢
    obtain ⟨⟨call, next⟩, inserted, finished⟩ := opened
    cases finished
    obtain ⟨weaving', rewoven, blank, rfl, marks⟩ :=
      Cursor.insertGap_rewoven decoded woven boundary blank inserted
    exact ⟨weaving', rewoven, blank, rfl, nofun, fun known => ⟨_, marks known, rfl⟩⟩
  · simp only [same, if_neg far, bind_eq_ok] at opened ⊢
    obtain ⟨⟨call, middle⟩, inserted, opened⟩ := opened
    obtain ⟨weaving', rewoven, blank, rfl, marks⟩ :=
      Cursor.insertGap_rewoven decoded woven boundary blank inserted
    have same (pos : Nat) : subroutineAt (middle.moveTo pos) length = subroutineAt middle length := rfl
    dsimp only at opened ⊢
    by_cases further : shortReach < subroutineAt middle length - weaving'.enter here
    · simp only [if_pos further, bind_eq_ok, pure_eq_ok] at opened
      obtain ⟨⟨call, next⟩, inserted, finished⟩ := opened
      cases finished
      obtain ⟨weaving'', rewoven', blank, rfl, marks'⟩ :=
        Cursor.insertGap_rewoven decoded rewoven.woven boundary blank inserted
      refine ⟨weaving'', rewoven.trans rewoven', blank, rfl, nofun, fun known => ?_⟩
      refine ⟨_, marks known, ?_⟩
      dsimp only
      rw [same, if_pos further]
      exact bind_eq_ok.2 ⟨_, marks' known, rfl⟩
    · rw [if_neg further] at opened
      cases pure_eq_ok.1 opened
      refine ⟨weaving', rewoven, blank, rfl, fun _ => Nat.le_of_not_lt further, fun known => ?_⟩
      refine ⟨_, marks known, ?_⟩
      dsimp only
      rw [same, if_neg further]
      rfl

/-- A call is put in front of an instruction. It leads to an instruction behind it where this one is
still `length` bytes in front of the end of the code. -/
theorem callBefore_rewoven (decoded : Listing.decode base = .ok old)
    (woven : Woven old weaving cursor.code.bytes) (boundary : old.IsBoundary here)
    (empty : weaving.inserted here = []) (bounded : cursor.code.bytes.size ≤ Code.maxLength)
    (called : callBefore cursor (weaving.enter here) length = .ok next) :
    ∃ weaving' goal, Rewoven old here weaving weaving' cursor.code next.code ∧
      weaving'.Calls here goal ∧
      (∀ {entry : Nat}, old.IsBoundary entry → here < entry →
        (goal = weaving'.enter entry ↔ weaving'.enter entry + length = next.code.bytes.size)) ∧
      ∀ {pos : Nat}, old.IsBoundary pos →
        callBefore (cursor.moveTo (weaving.enter pos)) (weaving.enter here) length =
          .ok (next.moveTo (weaving'.enter pos)) := by
  obtain ⟨⟨call, isWide, middle⟩, opened, written⟩ := bind_eq_ok.1 called
  obtain ⟨weaving', rewoven, blank, rfl, narrow, marks⟩ :=
    openCall_rewoven decoded woven boundary empty opened
  dsimp only at written
  generalize reach : (subroutineAt middle length : Int) - weaving'.enter here = distance at written
  have known := Cursor.overwrite_overwritten written
  have calls : (weaving'.insert here [(weaving'.enter here, callAt (weaving'.enter here) isWide
      distance)]).Calls here (callGoal (weaving'.enter here) isWide distance) := by
    unfold Weaving.Calls
    rw [Weaving.inserted_insert]
    cases isWide with
    | false => exact .inl rfl
    | true => exact .inr rfl
  rw [← length_callBytes isWide distance] at blank
  have rewritten := Cursor.overwrite_rewoven decoded rewoven.woven boundary blank written
    reads_callBytes
  have whole := rewoven.trans rewritten
  refine ⟨_, _, whole, calls, ?_, ?_⟩
  · intro entry known' behind
    have target : subroutineAt middle length = next.code.bytes.size - length := by
      rw [known.size]
      rfl
    have later : weaving'.enter here < weaving'.enter entry :=
      rewoven.woven.enter_lt boundary known' behind
    have inside : weaving'.enter entry ≤ next.code.bytes.size :=
      Nat.le_trans (whole.woven.enter_le_place known') (whole.woven.place_le_size decoded known')
    have fits := whole.bounded bounded
    show callGoal _ _ _ = ((weaving'.enter entry : Nat) : Int) ↔ weaving'.enter entry + _ = _
    rw [← reach, callGoal_eq_iff narrow (by omega) later (by omega), target]
    omega
  · intro pos known'
    refine bind_eq_ok.2 ⟨_, marks known', ?_⟩
    dsimp only
    have same : subroutineAt (middle.moveTo (weaving'.enter pos)) length =
        subroutineAt middle length := rfl
    rw [same, reach]
    unfold Cursor.overwrite at written ⊢
    split at written
    · rename_i fits
      cases written
      exact if_pos fits
    · cases written

end Rewoven

end ClassSplice.Edit
