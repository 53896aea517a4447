import ClassSplice.Proofs.Edit.Finally
import ClassSplice.Proofs.Machine.Execution

namespace ClassSplice.Machine

open Code (Buffer Opcode)
open Descriptor (ValueKind)
open Edit (Accesses slottedBytes)

def slotsOf (opcode : Opcode) : Nat :=
  match loaded? opcode <|> stored? opcode with
  | some kind => kind.slots
  | none => 1

theorem accessed?_wide {opcode : Opcode} {slot : Nat} (widenable : Code.isWidenable opcode = true)
    (fits : slot ≤ 65535) :
    accessed? (Opcode.wide :: opcode :: Binary.Writer.u16 (UInt16.ofNat slot)) =
      some (opcode, slot) := by
  have same : (UInt16.ofNat slot).toNat = slot :=
    UInt16.toNat_ofNat_of_lt' (by simp [UInt16.size]; omega)
  have denotes := Binary.BigEndian.value_bytes 2 slot
  rw [Nat.mod_eq_of_lt (by omega)] at denotes
  rw [Binary.Writer.u16, same]
  simp only [Binary.BigEndian.bytes, List.nil_append, List.singleton_append] at denotes ⊢
  simp only [accessed?, widenable, denotes, and_self, if_true]

theorem accessed?_short {opcode : Opcode} {slot : Nat} (widenable : Code.isWidenable opcode = true)
    (fits : slot ≤ 255) : accessed? [opcode, UInt8.ofNat slot] = some (opcode, slot) := by
  have same : (UInt8.ofNat slot).toNat = slot :=
    UInt8.toNat_ofNat_of_lt' (by simp [UInt8.size]; omega)
  simp only [accessed?, widenable, if_true, same]

theorem accessed?_slotted {opcode : Opcode} {slot : Nat} (widenable : Code.isWidenable opcode = true)
    (fits : slot ≤ 65535) : accessed? (slottedBytes opcode slot) = some (opcode, slot) := by
  unfold slottedBytes
  split
  · exact accessed?_short widenable ‹_›
  · exact accessed?_wide widenable fits

theorem accessed?_access {opcode short : Opcode} {kind : ValueKind} {slot : Nat}
    (accesses : Accesses opcode short kind)
    (near : ∀ slot : Fin 4, accessed? [short + kind.family * 4 + UInt8.ofNat slot] =
      some (opcode, slot.val))
    (fits : slot ≤ 65535) :
    accessed? (Buffer.accessBytes opcode short kind slot) = some (opcode, slot) := by
  unfold Buffer.accessBytes
  split
  · exact near ⟨slot, ‹_›⟩
  · exact accessed?_slotted accesses.widenable fits

theorem accessed?_load {kind : ValueKind} {slot : Nat} (fits : slot ≤ 65535) :
    accessed? (Buffer.accessBytes kind.loadOpcode Opcode.iload0 kind slot) =
      some (kind.loadOpcode, slot) :=
  accessed?_access (Edit.accesses_load kind) (by cases kind <;> decide) fits

theorem accessed?_store {kind : ValueKind} {slot : Nat} (fits : slot ≤ 65535) :
    accessed? (Buffer.accessBytes kind.storeOpcode Opcode.istore0 kind slot) =
      some (kind.storeOpcode, slot) :=
  accessed?_access (Edit.accesses_store kind) (by cases kind <;> decide) fits

end ClassSplice.Machine
