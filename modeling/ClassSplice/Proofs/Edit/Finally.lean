import ClassSplice.Edit.Body
import ClassSplice.Proofs.Code.Buffer
import ClassSplice.Proofs.Layout.Emission

namespace ClassSplice.Edit

open Code (Buffer Holds Opcode Reads Runs)
open Descriptor (ValueKind)

def Stays (bytes : List UInt8) : Prop :=
  ∀ (code : Array UInt8) (pos : Nat), Holds code pos bytes → ∃ entries,
    Runs code pos entries (pos + bytes.length) ∧ ∀ entry ∈ entries, ¬ entry.2.instruction.IsReturn

theorem stays_nil : Stays [] := by
  intro code pos _
  exact ⟨[], .done pos, nofun⟩

theorem Stays.append {front back : List UInt8} (first : Stays front) (second : Stays back) :
    Stays (front ++ back) := by
  intro code pos held
  obtain ⟨heldFront, heldBack⟩ := Code.holds_append.1 held
  obtain ⟨entries, run, others⟩ := first code pos heldFront
  obtain ⟨entries', run', others'⟩ := second code _ heldBack
  refine ⟨entries ++ entries', ?_, fun entry member => ?_⟩
  · rw [List.length_append, ← Nat.add_assoc]
    exact run.append run'
  · rcases List.mem_append.1 member with earlier | later
    · exact others entry earlier
    · exact others' entry later

theorem stays_of_reads {located : Code.Located} {bytes : List UInt8}
    (reads : ∀ {code : Array UInt8} {pos : Nat}, Holds code pos bytes → Reads code pos located)
    (length : located.length = bytes.length) (other : ¬ located.instruction.IsReturn) :
    Stays bytes := by
  intro code pos held
  refine ⟨[(pos, located)], ?_, fun entry member => ?_⟩
  · rw [← length]
    exact .single (reads held)
  · rw [List.mem_singleton.1 member]
    exact other

theorem reads_fixed {opcode : Opcode} {operands : List UInt8} {code : Array UInt8} {pos : Nat}
    (form : opcode.form? = some (.fixed (operands.length + 1))) (ordinary : opcode.namesPlace = false)
    (held : Holds code pos (opcode :: operands)) :
    Reads code pos ⟨operands.length + 1, .plain (opcode :: operands)⟩ := by
  have first := Code.byteAt_of_holds (Code.holds_cons.1 held).1
  exact Code.reads_of_spelled (.plain first ordinary form rfl held)

theorem reads_single {opcode : Opcode} {code : Array UInt8} {pos : Nat}
    (form : opcode.form? = some (.fixed 1)) (ordinary : opcode.namesPlace = false)
    (held : Holds code pos [opcode]) : Reads code pos ⟨1, .plain [opcode]⟩ :=
  reads_fixed form ordinary held

theorem stays_single {opcode : Opcode} (form : opcode.form? = some (.fixed 1))
    (ordinary : opcode.namesPlace = false) (other : opcode.isReturn = false) : Stays [opcode] := by
  refine stays_of_reads (reads_single form ordinary) rfl ?_
  rintro ⟨_, ⟨⟩, returns⟩
  rw [other] at returns
  cases returns

theorem stays_nops (count : Nat) : Stays (List.replicate count Opcode.nop) := by
  induction count with
  | zero => exact stays_nil
  | succ count ih =>
      have nop : Stays [Opcode.nop] := stays_single (by decide +kernel) (by decide) (by decide)
      exact nop.append ih

theorem stays_zero (kind : ValueKind) : Stays [kind.zeroOpcode] := by
  have known : Opcode.form? kind.zeroOpcode = some (.fixed 1) ∧
      Opcode.namesPlace kind.zeroOpcode = false ∧ Opcode.isReturn kind.zeroOpcode = false := by
    cases kind <;> decide +kernel
  exact stays_single known.1 known.2.1 known.2.2

def slottedBytes (opcode : Opcode) (slot : Nat) : List UInt8 :=
  if slot ≤ 255 then [opcode, UInt8.ofNat slot]
  else Opcode.wide :: opcode :: Binary.Writer.u16 (UInt16.ofNat slot)

theorem reads_slotted {opcode : Opcode} {code : Array UInt8} {pos : Nat}
    (form : opcode.form? = some (.fixed 2)) (ordinary : opcode.namesPlace = false)
    (widenable : Code.isWidenable opcode = true) (slot : Nat)
    (held : Holds code pos (slottedBytes opcode slot)) :
    Reads code pos ⟨(slottedBytes opcode slot).length, .plain (slottedBytes opcode slot)⟩ := by
  unfold slottedBytes at held ⊢
  by_cases short : slot ≤ 255
  · rw [if_pos short] at held ⊢
    obtain ⟨first, _⟩ := Code.holds_cons.1 held
    exact Code.reads_of_spelled (.plain (Code.byteAt_of_holds first) ordinary form rfl held)
  · rw [if_neg short] at held ⊢
    obtain ⟨first, operands⟩ := Code.holds_cons.1 held
    have second := Code.byteAt_eq_ok.1 (Code.byteAt_of_holds (Code.holds_cons.1 operands).1)
    have wide : Opcode.namesPlace Opcode.wide = false := by decide
    have found : Opcode.form? Opcode.wide = some .wide := by decide +kernel
    have different : opcode ≠ Opcode.iinc := by
      rintro rfl
      exact absurd widenable (by decide)
    have length : (Opcode.wide :: opcode :: Binary.Writer.u16 (UInt16.ofNat slot)).length = 4 := rfl
    have claimed : Code.claimedLength code pos .wide = .ok 4 := by
      simp only [Code.claimedLength, second, if_neg different, widenable, if_true]
    rw [← length] at claimed
    exact Code.reads_of_spelled (.plain (Code.byteAt_of_holds first) wide found claimed held)

structure Accesses (opcode short : Opcode) (kind : ValueKind) : Prop where
  form : opcode.form? = some (.fixed 2)
  ordinary : opcode.namesPlace = false
  widenable : Code.isWidenable opcode = true
  near : ∀ slot : Fin 4, (short + kind.family * 4 + UInt8.ofNat slot).form? = some (.fixed 1) ∧
    (short + kind.family * 4 + UInt8.ofNat slot).namesPlace = false ∧
    (short + kind.family * 4 + UInt8.ofNat slot).isReturn = false

theorem accesses_load (kind : ValueKind) : Accesses kind.loadOpcode Opcode.iload0 kind := by
  constructor
  all_goals cases kind <;> decide +kernel

theorem accesses_store (kind : ValueKind) : Accesses kind.storeOpcode Opcode.istore0 kind := by
  constructor
  all_goals cases kind <;> decide +kernel

section Accesses

variable {opcode short : Opcode} {kind : ValueKind} {code : Array UInt8} {pos : Nat}

theorem Accesses.reads (accesses : Accesses opcode short kind) (slot : Nat)
    (held : Holds code pos (Buffer.accessBytes opcode short kind slot)) :
    Reads code pos ⟨(Buffer.accessBytes opcode short kind slot).length,
      .plain (Buffer.accessBytes opcode short kind slot)⟩ := by
  unfold Buffer.accessBytes at held ⊢
  split at held
  · rename_i near
    obtain ⟨form, ordinary, _⟩ := accesses.near ⟨slot, near⟩
    rw [if_pos near]
    exact reads_single form ordinary held
  · rename_i far
    rw [if_neg far]
    exact reads_slotted accesses.form accesses.ordinary accesses.widenable slot held

theorem Accesses.not_isReturn (accesses : Accesses opcode short kind) (slot : Nat) :
    ¬ (Code.Instruction.plain (Buffer.accessBytes opcode short kind slot)).IsReturn := by
  rintro ⟨first, same, returns⟩
  have same := Code.Instruction.plain.inj same
  unfold Buffer.accessBytes at same
  split at same
  · rename_i near
    obtain ⟨_, _, other⟩ := accesses.near ⟨slot, near⟩
    rw [← (List.cons.inj same).1] at returns
    exact absurd returns (by rw [other]; exact Bool.false_ne_true)
  · split at same
    · cases same
    · cases same

theorem Accesses.stays (accesses : Accesses opcode short kind) (slot : Nat) :
    Stays (Buffer.accessBytes opcode short kind slot) :=
  stays_of_reads (accesses.reads slot) rfl (accesses.not_isReturn slot)

end Accesses

theorem stays_jsr (distance : UInt16) : Stays (Opcode.jsr :: Binary.Writer.u16 distance) := by
  intro code pos held
  obtain ⟨first, operand⟩ := Code.holds_cons.1 held
  have read : Code.i16At code (pos + 1) = .ok distance.toInt16 := Code.i16At_i16 operand
  have reads := Code.reads_of_spelled
    (.branch (Code.byteAt_of_holds first) (by decide) read held.le_size)
  refine ⟨_, .single reads, fun entry member => ?_⟩
  rw [List.mem_singleton.1 member]
  rintro ⟨_, ⟨⟩, _⟩

theorem stays_of_rethrow {buffer loaded : Buffer} {slot : Nat} (front : Stays buffer.bytes.toList)
    (added : (((buffer.addOpcode Opcode.jsr).addU16 0).grow (-1)).addLoad slot .reference = .ok loaded)
    (distance : UInt16) : Stays ((loaded.addOpcode Opcode.athrow).overwrite (buffer.pc + 1)
      (Binary.Writer.u16 distance)).bytes.toList := by
  have load := Buffer.toList_addAccess added
  rw [Buffer.bytes_grow, Buffer.toList_addU16, Buffer.toList_addOpcode] at load
  have place : buffer.pc + 1 = (buffer.bytes.toList ++ [Opcode.jsr]).length := by
    simp [Buffer.pc]
  have split : (loaded.addOpcode Opcode.athrow).bytes.toList = buffer.bytes.toList ++ [Opcode.jsr] ++
      Binary.Writer.u16 0 ++ (Buffer.accessBytes ValueKind.reference.loadOpcode Opcode.iload0
        .reference slot ++ [Opcode.athrow]) := by
    rw [Buffer.toList_addOpcode, load, List.append_assoc]
  have length : (Binary.Writer.u16 distance).length = (Binary.Writer.u16 0).length := rfl
  rw [place, Buffer.toList_overwrite split length]
  have throws : Stays [Opcode.athrow] :=
    stays_single (by decide +kernel) (by decide) (by decide)
  have rest := ((accesses_load .reference).stays slot).append throws
  have whole := front.append ((stays_jsr distance).append rest)
  simpa using whole

theorem stays_of_addFinallyHandler {buffer after : Buffer} {returns : Option Descriptor.FieldType}
    (empty : buffer.bytes = #[]) (added : addFinallyHandler buffer returns = .ok after) :
    Stays after.bytes.toList := by
  unfold addFinallyHandler at added
  obtain ⟨⟨slot, taken⟩, step, added⟩ := bind_eq_ok.1 added
  obtain ⟨_, rfl, rfl⟩ := Buffer.allocateLocal_eq_ok.1 step
  obtain ⟨stored, step, added⟩ := bind_eq_ok.1 added
  have store := Buffer.toList_addAccess step
  have first : Stays stored.bytes.toList := by
    rw [store, Buffer.bytes_setDepth]
    show Stays (buffer.bytes.toList ++ _)
    rw [empty]
    exact (accesses_store .reference).stays _
  cases returns with
  | none =>
      obtain ⟨loaded, load, added⟩ := bind_eq_ok.1 added
      cases pure_eq_ok.1 added
      exact stays_of_rethrow first load _
  | some type =>
      obtain ⟨loaded, load, added⟩ := bind_eq_ok.1 added
      cases pure_eq_ok.1 added
      have zeroed : Stays (stored.addZero type.kind).bytes.toList := by
        rw [Buffer.addZero, Buffer.toList_addOpcode]
        exact first.append (stays_zero type.kind)
      exact stays_of_rethrow zeroed load _

end ClassSplice.Edit
