import ClassSplice.Code.Cursor
import ClassSplice.Proofs.Except

namespace ClassSplice.Code

/-- Instructions that follow on one another, the first at one offset of the code and the last up to
another, start at these offsets. -/
inductive Tiles (code : Array UInt8) : Nat → List Nat → Nat → Prop
  | done (pos : Nat) : Tiles code pos [] pos
  | step {pos length stop : Nat} {starts : List Nat} (measured : instructionLength code pos = .ok length)
      (rest : Tiles code (pos + length) starts stop) : Tiles code pos (pos :: starts) stop

/-- No further instruction is read at an offset: the code ends there, or what stands there is
malformed. -/
inductive Stops (code : Array UInt8) (stop : Nat) : Option Error → Prop
  | ended (reached : code.size ≤ stop) : Stops code stop none
  | failed {error : Error} (inCode : stop < code.size)
      (refused : instructionLength code stop = .error error) : Stops code stop (some error)

/-- The answer of a loop over the instructions, unless a fault got in its way. -/
def verdict {α : Type} (answer : α) : Option Error → Except Error α
  | none => .ok answer
  | some error => .error error

section Tiles

variable {code : Array UInt8} {pos stop stop' length : Nat} {starts starts' : List Nat}
  {fault fault' : Option Error}

theorem not_stops_of_measured (measured : instructionLength code pos = .ok length) :
    ¬ Stops code pos fault := by
  have := length_le measured
  have := length_pos measured
  intro stops
  cases stops with
  | ended reached => omega
  | failed inCode refused => cases measured.symm.trans refused

theorem Stops.unique (stops : Stops code pos fault) (stops' : Stops code pos fault') :
    fault = fault' := by
  cases stops with
  | ended reached =>
      cases stops' with
      | ended => rfl
      | failed inCode => omega
  | failed inCode refused =>
      cases stops' with
      | ended reached => omega
      | failed _ refused' =>
          cases refused.symm.trans refused'
          rfl

theorem Stops.eq_none_iff (stops : Stops code stop fault) (inCode : stop ≤ code.size) :
    fault = none ↔ stop = code.size := by
  cases stops with
  | ended reached => exact ⟨fun _ => Nat.le_antisymm inCode reached, fun _ => rfl⟩
  | failed less => exact ⟨nofun, fun same => absurd less (Nat.not_lt_of_ge (Nat.le_of_eq same.symm))⟩

theorem exists_tiles (code : Array UInt8) (pos : Nat) :
    ∃ starts stop fault, Tiles code pos starts stop ∧ Stops code stop fault := by
  by_cases inCode : pos < code.size
  · cases measured : instructionLength code pos with
    | error error => exact ⟨[], pos, some error, .done pos, .failed inCode measured⟩
    | ok length =>
        have := length_pos measured
        obtain ⟨starts, stop, fault, rest, stops⟩ := exists_tiles code (pos + length)
        exact ⟨pos :: starts, stop, fault, .step measured rest, stops⟩
  · exact ⟨[], pos, none, .done pos, .ended (Nat.le_of_not_lt inCode)⟩
termination_by code.size - pos

theorem Tiles.unique (tiles : Tiles code pos starts stop) (stops : Stops code stop fault)
    (tiles' : Tiles code pos starts' stop') (stops' : Stops code stop' fault') :
    starts = starts' ∧ stop = stop' ∧ fault = fault' := by
  induction tiles generalizing starts' with
  | done =>
      cases tiles' with
      | done => exact ⟨rfl, rfl, stops.unique stops'⟩
      | step measured => exact absurd stops (not_stops_of_measured measured)
  | step measured rest ih =>
      cases tiles' with
      | done => exact absurd stops' (not_stops_of_measured measured)
      | step measured' rest' =>
          cases measured.symm.trans measured'
          obtain ⟨rfl, same⟩ := ih stops rest'
          exact ⟨rfl, same⟩

theorem Tiles.length_le (tiles : Tiles code pos starts stop) : pos + starts.length ≤ stop := by
  induction tiles with
  | done => exact Nat.le_refl _
  | step measured rest ih =>
      have := length_pos measured
      rw [List.length_cons]
      omega

theorem Tiles.stop_le_size (tiles : Tiles code pos starts stop) (bounded : pos ≤ code.size) :
    stop ≤ code.size := by
  induction tiles with
  | done => exact bounded
  | step measured rest ih => exact ih (Code.length_le measured)

theorem Tiles.length_le_room (tiles : Tiles code pos starts stop) :
    starts.length ≤ code.size - pos := by
  cases tiles with
  | done => exact Nat.zero_le _
  | step measured rest =>
      have room := length_pos measured
      have inCode := rest.stop_le_size (Code.length_le measured)
      have count := rest.length_le
      rw [List.length_cons]
      omega

theorem Tiles.mem_bounds {start : Nat} (tiles : Tiles code pos starts stop) (member : start ∈ starts) :
    pos ≤ start ∧ start < stop := by
  induction tiles with
  | done => cases member
  | step measured rest ih =>
      have := length_pos measured
      have := rest.length_le
      rcases List.mem_cons.1 member with rfl | later
      · omega
      · have := ih later
        omega

theorem Tiles.pairwise (tiles : Tiles code pos starts stop) : starts.Pairwise (· < ·) := by
  induction tiles with
  | done => exact .nil
  | step measured rest ih =>
      refine .cons (fun start member => ?_) ih
      have := length_pos measured
      have := rest.mem_bounds member
      omega

end Tiles

/-- Does a switch stand at an offset, whether or not all of it is there? -/
def startsSwitch (code : Array UInt8) (pos : Nat) : Bool :=
  code[pos]?.any Opcode.isSwitch

section Steps

variable (code : Array UInt8) (pos : Nat)

theorem walkOnto_step (before : Array Nat) :
    walkOnto code before pos =
      if pos < code.size then
        match instructionLength code pos with
        | .error error => ⟨before, pos, some error⟩
        | .ok length => walkOnto code (before.push pos) (pos + length)
      else ⟨before, pos, none⟩ := by
  rw [walkOnto]
  split
  · split
    all_goals
      rename_i known
      simp only [known]
  · rfl

theorem containsSwitchFrom_step :
    containsSwitchFrom code pos =
      match code[pos]? with
      | none => .ok false
      | some opcode =>
        if Opcode.isSwitch opcode then .ok true
        else (instructionLength code pos).bind fun length =>
          containsSwitchFrom code (pos + length) := by
  rw [containsSwitchFrom]
  cases code[pos]? with
  | none => rfl
  | some opcode =>
      dsimp only
      split
      · rfl
      · split
        all_goals
          rename_i known
          simp only [known, Except.bind]

theorem lastOpcodeFrom_step (before : Option Opcode) :
    lastOpcodeFrom code before pos =
      match code[pos]? with
      | none => .ok before
      | some opcode =>
        (instructionLength code pos).bind fun length =>
          lastOpcodeFrom code (some opcode) (pos + length) := by
  rw [lastOpcodeFrom]
  cases code[pos]? with
  | none => rfl
  | some opcode =>
      dsimp only
      split
      all_goals
        rename_i known
        simp only [known, Except.bind]

end Steps

section Loops

variable {code : Array UInt8} {pos stop : Nat} {starts : List Nat} {fault : Option Error}

theorem walkOnto_eq (tiles : Tiles code pos starts stop) (stops : Stops code stop fault)
    (before : Array Nat) : walkOnto code before pos = ⟨before ++ starts.toArray, stop, fault⟩ := by
  induction tiles generalizing before with
  | done pos =>
      rw [walkOnto_step, Array.append_empty]
      cases stops with
      | ended reached => rw [if_neg (Nat.not_lt_of_ge reached)]
      | failed inCode refused => rw [if_pos inCode, refused]
  | step measured rest ih =>
      have room := length_pos measured
      have inCode := Code.length_le measured
      rw [walkOnto_step, if_pos (by omega), measured]
      dsimp only
      rw [ih stops]
      simp

theorem instructionStarts_eq (tiles : Tiles code 0 starts stop) (stops : Stops code stop fault) :
    instructionStarts code = verdict starts.toArray fault := by
  rw [instructionStarts, walkFrom, walkOnto_eq tiles stops, Array.empty_append]
  cases fault <;> rfl

theorem containsSwitchFrom_eq (tiles : Tiles code pos starts stop) (stops : Stops code stop fault) :
    containsSwitchFrom code pos =
      if starts.any (startsSwitch code) || startsSwitch code stop then .ok true
      else verdict false fault := by
  induction tiles with
  | done pos =>
      rw [containsSwitchFrom_step, List.any_nil, Bool.false_or, startsSwitch]
      cases stops with
      | ended reached =>
          rw [Array.getElem?_eq_none reached]
          rfl
      | failed inCode refused =>
          rw [Array.getElem?_eq_getElem inCode, refused]
          rfl
  | @step pos length stop starts measured rest ih =>
      have room := length_pos measured
      have behind := Code.length_le measured
      have inCode : pos < code.size := by omega
      rw [containsSwitchFrom_step, List.any_cons, startsSwitch, Array.getElem?_eq_getElem inCode, measured,
        Option.any_some]
      dsimp only
      split
      · rename_i switch
        rw [switch]
        rfl
      · rename_i other
        rw [Bool.not_eq_true] at other
        rw [other, Bool.false_or]
        exact ih stops

theorem lastOpcodeFrom_eq (tiles : Tiles code pos starts stop) (stops : Stops code stop fault)
    (before : Option Opcode) :
    lastOpcodeFrom code before pos =
      verdict (starts.getLast?.elim before fun start => code[start]?) fault := by
  induction tiles generalizing before with
  | done pos =>
      rw [lastOpcodeFrom_step]
      cases stops with
      | ended reached =>
          rw [Array.getElem?_eq_none reached]
          rfl
      | failed inCode refused =>
          rw [Array.getElem?_eq_getElem inCode, refused]
          rfl
  | @step pos length stop starts measured rest ih =>
      have room := length_pos measured
      have behind := Code.length_le measured
      have first : code[pos]? = some code[pos] := Array.getElem?_eq_getElem (by omega)
      rw [lastOpcodeFrom_step, first, measured]
      show lastOpcodeFrom code (some code[pos]) (pos + length) = _
      rw [ih stops, List.getLast?_cons, ← first]
      cases starts.getLast? <;> rfl

end Loops

namespace Cursor

/-- Calls of `next` in a row return these offsets. -/
inductive Passes : Cursor → List Nat → Cursor → Prop
  | done (cursor : Cursor) : Passes cursor [] cursor
  | step {cursor next last : Cursor} {pos : Nat} {offsets : List Nat}
      (stepped : cursor.next = .ok (some (pos, next))) (rest : Passes next offsets last) :
      Passes cursor (pos :: offsets) last

section Passes

variable {cursor next last : Cursor} {pos length stop : Nat} {starts offsets : List Nat}
  {fault : Option Error}

theorem next_of_measured (measured : instructionLength cursor.code.bytes cursor.pos = .ok length) :
    cursor.next = .ok (some (cursor.pos, cursor.moveTo (cursor.pos + length))) := by
  have more : cursor.hasNext = true := by
    have room := length_pos measured
    have inCode := Code.length_le measured
    simp only [Cursor.hasNext, decide_eq_true_eq]
    omega
  rw [Cursor.next, if_pos more, measured]
  rfl

theorem next_of_stops (stops : Stops cursor.code.bytes cursor.pos fault) :
    cursor.next = verdict none fault := by
  cases stops with
  | ended reached =>
      have last : ¬ cursor.hasNext = true := by
        simp only [Cursor.hasNext, decide_eq_true_eq]
        omega
      rw [Cursor.next, if_neg last]
      rfl
  | failed inCode refused =>
      have more : cursor.hasNext = true := by
        simp only [Cursor.hasNext, decide_eq_true_eq]
        exact inCode
      rw [Cursor.next, if_pos more, refused]
      rfl

theorem next_eq_some (stepped : cursor.next = .ok (some (pos, next))) :
    pos = cursor.pos ∧ ∃ length, instructionLength cursor.code.bytes cursor.pos = .ok length ∧
      next = cursor.moveTo (cursor.pos + length) := by
  rw [Cursor.next] at stepped
  split at stepped
  · obtain ⟨length, measured, stepped⟩ := bind_eq_ok.1 stepped
    cases pure_eq_ok.1 stepped
    exact ⟨rfl, length, measured, rfl⟩
  · cases pure_eq_ok.1 stepped

theorem next_eq_none (stopped : cursor.next = .ok none) : cursor.code.bytes.size ≤ cursor.pos := by
  rw [Cursor.next] at stopped
  split at stopped
  · obtain ⟨_, _, stopped⟩ := bind_eq_ok.1 stopped
    cases pure_eq_ok.1 stopped
  · rename_i last
    exact Nat.le_of_not_lt fun more => last (decide_eq_true more)

theorem passes_iff : Passes cursor offsets last ↔
    Tiles cursor.code.bytes cursor.pos offsets last.pos ∧ last.code = cursor.code := by
  constructor
  · intro passes
    induction passes with
    | done => exact ⟨.done _, rfl⟩
    | step stepped rest ih =>
        obtain ⟨rfl, length, measured, rfl⟩ := next_eq_some stepped
        exact ⟨.step measured ih.1, ih.2⟩
  · rintro ⟨tiles, same⟩
    induction offsets generalizing cursor with
    | nil =>
        cases cursor
        cases last
        cases tiles
        cases same
        exact .done _
    | cons pos offsets ih =>
        cases tiles with
        | step measured rest => exact .step (next_of_measured measured) (ih rest same)

theorem drain_eq (tiles : Tiles cursor.code.bytes cursor.pos starts stop)
    (stops : Stops cursor.code.bytes stop fault) :
    cursor.drain = (starts.toArray, fault, cursor.moveTo stop) := by
  rw [drain, walkFrom, walkOnto_eq tiles stops, Array.empty_append]

end Passes

end Cursor

end ClassSplice.Code
