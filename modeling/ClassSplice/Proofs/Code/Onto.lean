import ClassSplice.Proofs.Code.Buffer

namespace ClassSplice.Code

def Handler.moved (offset : Nat) (handler : Handler) : Handler where
  start := UInt16.ofNat (offset + handler.start.toNat)
  stop := UInt16.ofNat (offset + handler.stop.toNat)
  target := UInt16.ofNat (offset + handler.target.toNat)
  catchType := handler.catchType

@[simp] theorem Handler.moved_zero (handler : Handler) : handler.moved 0 = handler := by
  simp [moved]

structure Handler.MovedBy (offset : Nat) (handler moved : Handler) : Prop where
  start : moved.start.toNat = offset + handler.start.toNat
  stop : moved.stop.toNat = offset + handler.stop.toNat
  target : moved.target.toNat = offset + handler.target.toNat
  catchType : moved.catchType = handler.catchType

theorem Handler.movedBy_moved {offset : Nat} {handler : Handler}
    (low : offset + handler.start.toNat ≤ 65535) (high : offset + handler.stop.toNat ≤ 65535)
    (goal : offset + handler.target.toNat ≤ 65535) : handler.MovedBy offset (handler.moved offset) where
  start := UInt16.toNat_ofNat_of_lt' (Nat.lt_succ_of_le low)
  stop := UInt16.toNat_ofNat_of_lt' (Nat.lt_succ_of_le high)
  target := UInt16.toNat_ofNat_of_lt' (Nat.lt_succ_of_le goal)
  catchType := rfl

theorem Handler.MovedBy.eq_moved {offset : Nat} {handler moved : Handler}
    (moves : handler.MovedBy offset moved) : moved = handler.moved offset := by
  obtain ⟨first, last, goal, caught⟩ := moves
  rw [Handler.moved, ← first, ← last, ← goal, ← caught]
  simp

theorem Handler.make_moved {offset start stop target : Nat} (catchType : Pool.Index)
    (low : offset + start ≤ 65535) (high : offset + stop ≤ 65535) (goal : offset + target ≤ 65535) :
    (∃ handler, make start stop target catchType = .ok handler ∧
      make (offset + start) (offset + stop) (offset + target) catchType = .ok (handler.moved offset)) ∨
    make start stop target catchType = .error (.badHandlers (.emptyRange start stop)) ∧
      make (offset + start) (offset + stop) (offset + target) catchType =
        .error (.badHandlers (.emptyRange (offset + start) (offset + stop))) := by
  by_cases empty : stop ≤ start
  · exact .inr ⟨if_pos empty, if_pos (Nat.add_le_add_left empty offset)⟩
  · have small {pos : Nat} (bound : offset + pos ≤ 65535) : (UInt16.ofNat pos).toNat = pos :=
      UInt16.toNat_ofNat_of_lt' (by simp only [UInt16.size]; omega)
    have spans : Spans ⟨UInt16.ofNat start, UInt16.ofNat stop, UInt16.ofNat target, catchType⟩
        start stop target := ⟨small low, small high, small goal, Nat.lt_of_not_le empty⟩
    have moves := movedBy_moved (spans.start.symm ▸ low) (spans.stop.symm ▸ high)
      (spans.target.symm ▸ goal)
    refine .inl ⟨_, make_eq_ok.2 ⟨spans, rfl⟩, make_eq_ok.2 ⟨⟨?_, ?_, ?_, ?_⟩, rfl⟩⟩
    · rw [moves.start, spans.start]
    · rw [moves.stop, spans.stop]
    · rw [moves.target, spans.target]
    · exact Nat.add_lt_add_left spans.nonempty offset

namespace Buffer

def onto (buffer front : Buffer) : Buffer where
  bytes := front.bytes ++ buffer.bytes
  depth := buffer.depth
  maxStack := buffer.maxStack
  maxLocals := buffer.maxLocals
  handlers := front.handlers ++ buffer.handlers.map (Handler.moved front.pc)

def cleared (buffer : Buffer) : Buffer :=
  { buffer with bytes := #[], handlers := [] }

variable (buffer front : Buffer)

@[simp] theorem cleared_onto : buffer.cleared.onto buffer = buffer := by
  simp [cleared, onto]

@[simp] theorem onto_empty (maxStack maxLocals : Nat) :
    buffer.onto (.empty maxStack maxLocals) = buffer := by
  have same : Handler.moved (empty maxStack maxLocals).pc = id := funext Handler.moved_zero
  simp only [onto, same]
  simp [empty]

@[simp] theorem pc_onto : (buffer.onto front).pc = front.pc + buffer.pc :=
  Array.size_append

@[simp] theorem depth_onto : (buffer.onto front).depth = buffer.depth :=
  rfl

@[simp] theorem setDepth_onto (depth : Int) :
    (buffer.onto front).setDepth depth = (buffer.setDepth depth).onto front :=
  rfl

@[simp] theorem grow_onto (change : Int) :
    (buffer.onto front).grow change = (buffer.grow change).onto front :=
  rfl

@[simp] theorem reserveLocals_onto (slots : Nat) :
    (buffer.onto front).reserveLocals slots = (buffer.reserveLocals slots).onto front :=
  rfl

@[simp] theorem allocateLocal_onto (width : Nat) : (buffer.onto front).allocateLocal width =
    (buffer.allocateLocal width).map fun (slot, buffer) => (slot, buffer.onto front) := by
  unfold allocateLocal
  rw [show (buffer.onto front).maxLocals = buffer.maxLocals from rfl]
  split
  · rfl
  · rfl

@[simp] theorem addByte_onto (byte : UInt8) :
    (buffer.onto front).addByte byte = (buffer.addByte byte).onto front := by
  simp only [addByte, onto, Array.append_push]

@[simp] theorem addBytes_onto (bytes : List UInt8) :
    (buffer.onto front).addBytes bytes = (buffer.addBytes bytes).onto front := by
  have behind : front.bytes ++ buffer.bytes ++ bytes = front.bytes ++ (buffer.bytes ++ bytes) := by
    simp [← Array.toList_inj]
  simp only [addBytes, onto, behind]

@[simp] theorem addU16_onto (word : UInt16) :
    (buffer.onto front).addU16 word = (buffer.addU16 word).onto front :=
  addBytes_onto ..

@[simp] theorem addI32_onto (word : Int32) :
    (buffer.onto front).addI32 word = (buffer.addI32 word).onto front :=
  addBytes_onto ..

@[simp] theorem addOpcode_onto (opcode : Opcode) :
    (buffer.onto front).addOpcode opcode = (buffer.addOpcode opcode).onto front := by
  simp only [addOpcode, addByte_onto, grow_onto]

@[simp] theorem addIndexed_onto (opcode : Opcode) (index : Pool.Index) :
    (buffer.onto front).addIndexed opcode index = (buffer.addIndexed opcode index).onto front := by
  simp only [addIndexed, addOpcode_onto, addU16_onto]

@[simp] theorem addLdc_onto (index : Pool.Index) :
    (buffer.onto front).addLdc index = (buffer.addLdc index).onto front := by
  unfold addLdc
  split <;> simp

@[simp] theorem addLdc2_onto (index : Pool.Index) :
    (buffer.onto front).addLdc2 index = (buffer.addLdc2 index).onto front :=
  addIndexed_onto ..

theorem addSlotted_onto (opcode : Opcode) (slot : Nat) : (buffer.onto front).addSlotted opcode slot =
    (buffer.addSlotted opcode slot).map (·.onto front) := by
  unfold addSlotted
  split
  · simp [Except.map]
  · split <;> simp [Except.map]

theorem addAccess_onto (opcode short : Opcode) (kind : Descriptor.ValueKind) (slot : Nat) :
    (buffer.onto front).addAccess opcode short kind slot =
      (buffer.addAccess opcode short kind slot).map (·.onto front) := by
  unfold addAccess
  dsimp only
  split
  · simp [Except.map, ok_bind, pure, Except.pure]
  · rw [addSlotted_onto]
    cases buffer.addSlotted opcode slot <;> rfl

theorem addLoad_onto (slot : Nat) (kind : Descriptor.ValueKind) :
    (buffer.onto front).addLoad slot kind = (buffer.addLoad slot kind).map (·.onto front) :=
  addAccess_onto ..

theorem addStore_onto (slot : Nat) (kind : Descriptor.ValueKind) :
    (buffer.onto front).addStore slot kind = (buffer.addStore slot kind).map (·.onto front) :=
  addAccess_onto ..

theorem addRet_onto (slot : Nat) :
    (buffer.onto front).addRet slot = (buffer.addRet slot).map (·.onto front) := by
  unfold addRet
  rw [addSlotted_onto]
  cases buffer.addSlotted Opcode.ret slot <;> rfl

theorem addInteger_onto (value : Int32) (pool : Pool) :
    outcome ((buffer.onto front).addInteger value) pool =
      (outcome (buffer.addInteger value) pool).map (·.map (·.onto front)) id := by
  unfold addInteger
  dsimp only
  split
  · simp only [addOpcode_onto]
    rfl
  · split
    · simp only [addOpcode_onto, addByte_onto]
      rfl
    · split
      · simp only [addOpcode_onto, addU16_onto]
        rfl
      · rw [outcome_bind, outcome_bind]
        rcases outcome (Pool.intern (.integer value)) pool with ⟨error | index, after⟩
        · rfl
        · simp only [addLdc_onto]
          rfl

theorem overwrite_onto (pos : Nat) (bytes : List UInt8) :
    (buffer.onto front).overwrite (front.pc + pos) bytes = (buffer.overwrite pos bytes).onto front := by
  induction bytes generalizing buffer pos with
  | nil => rfl
  | cons byte rest ih =>
      have first : (front.bytes ++ buffer.bytes).setIfInBounds (front.pc + pos) byte =
          front.bytes ++ buffer.bytes.setIfInBounds pos byte := by
        rw [Buffer.pc, Array.setIfInBounds_append_right (Nat.le_add_right ..), Nat.add_sub_cancel_left]
      simp only [overwrite, Nat.add_assoc]
      rw [← ih]
      simp only [onto, first]

theorem addHandler_onto {start stop target : Nat} {catchType : Pool.Index}
    (low : front.pc + start ≤ 65535) (high : front.pc + stop ≤ 65535)
    (goal : front.pc + target ≤ 65535) :
    (∃ after, buffer.addHandler start stop target catchType = .ok after ∧
      (buffer.onto front).addHandler (front.pc + start) (front.pc + stop) (front.pc + target) catchType =
        .ok (after.onto front)) ∨
    buffer.addHandler start stop target catchType = .error (.badHandlers (.emptyRange start stop)) ∧
      (buffer.onto front).addHandler (front.pc + start) (front.pc + stop) (front.pc + target) catchType =
        .error (.badHandlers (.emptyRange (front.pc + start) (front.pc + stop))) := by
  unfold addHandler HandlerTable.add
  obtain ⟨handler, near, far⟩ | ⟨near, far⟩ := Handler.make_moved catchType low high goal
  · refine .inl ⟨{ buffer with handlers := buffer.handlers ++ [handler] }, by rw [near]; rfl, ?_⟩
    rw [far]
    simp [onto, ok_bind, pure, Except.pure]
  · exact .inr ⟨by rw [near]; rfl, by rw [far]; rfl⟩

theorem addHandler_onto_of_pc (bare : front.pc = 0) (start stop target : Nat) (catchType : Pool.Index) :
    (buffer.onto front).addHandler start stop target catchType =
      (buffer.addHandler start stop target catchType).map (·.onto front) := by
  unfold addHandler HandlerTable.add
  cases Handler.make start stop target catchType with
  | error => rfl
  | ok handler => simp [onto, bare, Except.map, ok_bind, pure, Except.pure]

end Buffer
end Code
end ClassSplice
