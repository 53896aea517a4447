import ClassSplice.Code.Buffer
import ClassSplice.Proofs.Code.HandlerTable
import Mathlib

namespace ClassSplice.Code.Buffer

structure Extends (before after : Buffer) : Prop where
  bytes : before.bytes.toList <+: after.bytes.toList
  handlers : after.handlers = before.handlers

theorem Extends.trans {one other third : Buffer} (first : one.Extends other)
    (second : other.Extends third) : one.Extends third :=
  ⟨first.bytes.trans second.bytes, second.handlers.trans first.handlers⟩

theorem Extends.pc_le {before after : Buffer} (extended : before.Extends after) :
    before.pc ≤ after.pc := by
  simpa [pc] using extended.bytes.length_le

section Steps

variable {buffer after : Buffer}

@[simp] theorem toList_addByte (byte : UInt8) :
    (buffer.addByte byte).bytes.toList = buffer.bytes.toList ++ [byte] :=
  Array.toList_push

@[simp] theorem toList_addBytes (bytes : List UInt8) :
    (buffer.addBytes bytes).bytes.toList = buffer.bytes.toList ++ bytes :=
  Array.toList_appendList

@[simp] theorem bytes_setDepth (depth : Int) : (buffer.setDepth depth).bytes = buffer.bytes :=
  rfl

@[simp] theorem bytes_grow (change : Int) : (buffer.grow change).bytes = buffer.bytes :=
  rfl

@[simp] theorem bytes_reserveLocals (slots : Nat) :
    (buffer.reserveLocals slots).bytes = buffer.bytes :=
  rfl

@[simp] theorem toList_addOpcode (opcode : Opcode) :
    (buffer.addOpcode opcode).bytes.toList = buffer.bytes.toList ++ [opcode] :=
  toList_addByte opcode

@[simp] theorem handlers_addOpcode (opcode : Opcode) :
    (buffer.addOpcode opcode).handlers = buffer.handlers :=
  rfl

@[simp] theorem toList_addU16 (word : UInt16) :
    (buffer.addU16 word).bytes.toList = buffer.bytes.toList ++ Binary.Writer.u16 word :=
  toList_addBytes _

theorem allocateLocal_eq_ok {width slot : Nat} :
    buffer.allocateLocal width = .ok (slot, after) ↔ buffer.maxLocals + width < wordLimit ∧
      slot = buffer.maxLocals ∧ after = { buffer with maxLocals := buffer.maxLocals + width } := by
  unfold allocateLocal
  split
  · rename_i fits
    constructor
    · rintro ⟨⟩
      exact ⟨fits, rfl, rfl⟩
    · rintro ⟨_, rfl, rfl⟩
      rfl
  · rename_i beyond
    exact ⟨nofun, fun allocated => absurd allocated.1 beyond⟩

theorem allocateLocal_eq_error {width : Nat} {error : Error}
    (refused : buffer.allocateLocal width = .error error) : error = .overflow := by
  unfold allocateLocal at refused
  split at refused
  · cases refused
  · cases refused
    rfl

theorem extends_addSlotted {opcode : Opcode} {slot : Nat}
    (added : buffer.addSlotted opcode slot = .ok after) : buffer.Extends after := by
  unfold addSlotted at added
  split at added
  · cases added
    exact ⟨by simp, rfl⟩
  · split at added
    · cases added
      exact ⟨by simp, rfl⟩
    · cases added

theorem extends_addAccess {opcode short : Opcode} {kind : Descriptor.ValueKind} {slot : Nat}
    (added : buffer.addAccess opcode short kind slot = .ok after) : buffer.Extends after := by
  simp only [addAccess] at added
  split at added
  · cases added
    exact ⟨by simp, rfl⟩
  · obtain ⟨middle, slotted, added⟩ := bind_eq_ok.1 added
    cases pure_eq_ok.1 added
    exact (extends_addSlotted slotted).trans ⟨List.prefix_rfl, rfl⟩

def accessBytes (opcode short : Opcode) (kind : Descriptor.ValueKind) (slot : Nat) : List UInt8 :=
  if slot < 4 then [short + kind.family * 4 + UInt8.ofNat slot]
  else if slot ≤ 255 then [opcode, UInt8.ofNat slot]
  else Opcode.wide :: opcode :: Binary.Writer.u16 (UInt16.ofNat slot)

theorem toList_addAccess {opcode short : Opcode} {kind : Descriptor.ValueKind} {slot : Nat}
    (added : buffer.addAccess opcode short kind slot = .ok after) :
    after.bytes.toList = buffer.bytes.toList ++ accessBytes opcode short kind slot := by
  simp only [addAccess] at added
  unfold accessBytes
  by_cases near : slot < 4
  · rw [if_pos near] at added ⊢
    cases added
    simp
  · rw [if_neg near] at added ⊢
    obtain ⟨middle, slotted, added⟩ := bind_eq_ok.1 added
    cases pure_eq_ok.1 added
    unfold addSlotted at slotted
    by_cases short : slot ≤ 255
    · rw [if_pos short] at slotted ⊢
      cases slotted
      simp
    · rw [if_neg short] at slotted ⊢
      split at slotted
      · cases slotted
        simp
      · cases slotted

theorem extends_addLoad {slot : Nat} {kind : Descriptor.ValueKind}
    (added : buffer.addLoad slot kind = .ok after) : buffer.Extends after :=
  extends_addAccess added

theorem extends_addStore {slot : Nat} {kind : Descriptor.ValueKind}
    (added : buffer.addStore slot kind = .ok after) : buffer.Extends after :=
  extends_addAccess added

theorem extends_addRet {slot : Nat} (added : buffer.addRet slot = .ok after) :
    buffer.Extends after := by
  unfold addRet at added
  obtain ⟨middle, slotted, added⟩ := bind_eq_ok.1 added
  cases pure_eq_ok.1 added
  exact (extends_addSlotted slotted).trans ⟨List.prefix_rfl, rfl⟩

theorem handlers_overwrite (pos : Nat) (bytes : List UInt8) :
    (buffer.overwrite pos bytes).handlers = buffer.handlers := by
  induction bytes generalizing buffer pos with
  | nil => rfl
  | cons byte rest ih => exact ih (pos + 1)

theorem pc_overwrite (pos : Nat) (bytes : List UInt8) : (buffer.overwrite pos bytes).pc = buffer.pc := by
  induction bytes generalizing buffer pos with
  | nil => rfl
  | cons byte rest ih => exact (ih (pos + 1)).trans Array.size_setIfInBounds

theorem toList_overwrite {front old behind bytes : List UInt8}
    (split : buffer.bytes.toList = front ++ old ++ behind) (length : bytes.length = old.length) :
    (buffer.overwrite front.length bytes).bytes.toList = front ++ bytes ++ behind := by
  induction bytes generalizing buffer front old with
  | nil =>
      rw [List.eq_nil_of_length_eq_zero length.symm] at split
      exact split
  | cons byte rest ih =>
      cases old with
      | nil => cases length
      | cons first old =>
          have further := @ih { buffer with bytes := buffer.bytes.setIfInBounds front.length byte }
            (front ++ [byte]) old (by simp [split]) (Nat.succ.inj length)
          simpa [overwrite] using further

theorem prefix_overwrite {pos : Nat} {front : List UInt8} (bytes : List UInt8)
    (held : front <+: buffer.bytes.toList) (below : front.length ≤ pos) :
    front <+: (buffer.overwrite pos bytes).bytes.toList := by
  induction bytes generalizing buffer pos with
  | nil => exact held
  | cons byte rest ih =>
      apply ih
      · obtain ⟨behind, split⟩ := held
        refine ⟨behind.set (pos - front.length) byte, ?_⟩
        rw [Array.toList_setIfInBounds, ← split, List.set_append_right _ _ below]
      · exact Nat.le_succ_of_le below

end Steps

structure Grows (bytes : List UInt8) (growth : Int) (before after : Buffer) : Prop where
  bytes : after.bytes.toList = before.bytes.toList ++ bytes
  depth : after.depth = before.depth + growth
  maxStack : before.maxStack ≤ after.maxStack
  high : before.depth ≤ before.maxStack → after.depth ≤ after.maxStack
  maxLocals : before.maxLocals ≤ after.maxLocals
  handlers : after.handlers = before.handlers

section Grows

variable {before between after : Buffer} {bytes more : List UInt8} {growth change : Int}

theorem Grows.refl (buffer : Buffer) : Grows [] 0 buffer buffer :=
  ⟨by simp, by simp, le_rfl, id, le_rfl, rfl⟩

theorem Grows.trans (first : Grows bytes growth before between) (second : Grows more change between after) :
    Grows (bytes ++ more) (growth + change) before after where
  bytes := by rw [second.bytes, first.bytes, List.append_assoc]
  depth := by rw [second.depth, first.depth, add_assoc]
  maxStack := first.maxStack.trans second.maxStack
  high low := second.high (first.high low)
  maxLocals := first.maxLocals.trans second.maxLocals
  handlers := second.handlers.trans first.handlers

theorem Grows.pc (grows : Grows bytes growth before after) : after.pc = before.pc + bytes.length := by
  rw [Buffer.pc, ← Array.length_toList, grows.bytes, List.length_append, Array.length_toList]
  rfl

theorem Grows.addBytes (grows : Grows bytes growth before after) (more : List UInt8) :
    Grows (bytes ++ more) growth before (after.addBytes more) where
  bytes := by rw [toList_addBytes, grows.bytes, List.append_assoc]
  depth := grows.depth
  maxStack := grows.maxStack
  high := grows.high
  maxLocals := grows.maxLocals
  handlers := grows.handlers

theorem Grows.addByte (grows : Grows bytes growth before after) (byte : UInt8) :
    Grows (bytes ++ [byte]) growth before (after.addByte byte) where
  bytes := by rw [toList_addByte, grows.bytes, List.append_assoc]
  depth := grows.depth
  maxStack := grows.maxStack
  high := grows.high
  maxLocals := grows.maxLocals
  handlers := grows.handlers

theorem Grows.grow (grows : Grows bytes growth before after) (change : Int) :
    Grows bytes (growth + change) before (after.grow change) where
  bytes := grows.bytes
  depth := by
    show after.depth + change = _
    rw [grows.depth, add_assoc]
  maxStack := grows.maxStack.trans (Nat.le_max_left ..)
  high _ := by
    show after.depth + change ≤ (max after.maxStack (after.depth + change).toNat : Nat)
    omega
  maxLocals := grows.maxLocals
  handlers := grows.handlers

theorem Grows.reserveLocals (grows : Grows bytes growth before after) (slots : Nat) :
    Grows bytes growth before (after.reserveLocals slots) where
  bytes := grows.bytes
  depth := grows.depth
  maxStack := grows.maxStack
  high := grows.high
  maxLocals := grows.maxLocals.trans (Nat.le_max_left ..)
  handlers := grows.handlers

theorem le_maxLocals_reserveLocals (buffer : Buffer) (slots : Nat) :
    slots ≤ (buffer.reserveLocals slots).maxLocals :=
  Nat.le_max_right ..

theorem Grows.addOpcode (grows : Grows bytes growth before after) (opcode : Opcode) :
    Grows (bytes ++ [opcode]) (growth + opcode.growth) before (after.addOpcode opcode) :=
  (grows.addByte opcode).grow opcode.growth

theorem grows_addOpcode (buffer : Buffer) (opcode : Opcode) :
    Grows [opcode] opcode.growth buffer (buffer.addOpcode opcode) := by
  simpa using (Grows.refl buffer).addOpcode opcode

theorem grows_addIndexed (buffer : Buffer) (opcode : Opcode) (index : Pool.Index) :
    Grows (opcode :: Binary.Writer.u16 index) opcode.growth buffer (buffer.addIndexed opcode index) :=
  (grows_addOpcode buffer opcode).addBytes _

theorem grows_addWide (buffer : Buffer) (opcode : Opcode) :
    Grows [Opcode.wide, opcode] opcode.growth buffer
      ((buffer.addByte Opcode.wide).addOpcode opcode) := by
  simpa using ((Grows.refl buffer).addByte Opcode.wide).addOpcode opcode

end Grows

end ClassSplice.Code.Buffer
