import ClassSplice.Proofs.Machine.Access
import ClassSplice.Proofs.Pool.Interning

namespace ClassSplice.Machine

open Code (Buffer Holds Opcode Reads)
open Descriptor (ValueKind)
open Edit (slottedBytes)

/-- What an instruction does that moves one value, or returns from a subroutine, told without the pool: a
constant is where it stands. -/
inductive Action where
  | load (kind : ValueKind) (slot : Nat)
  | store (kind : ValueKind) (slot : Nat)
  | ret (slot : Nat)
  | push (value : Int32)
  | constant (index : Pool.Index)
  | wideConstant (index : Pool.Index)
  deriving DecidableEq

namespace Action

def ofAccess? (opcode : Opcode) (slot : Nat) : Option Action :=
  match loaded? opcode with
  | some kind => some (.load kind slot)
  | none =>
    match stored? opcode with
    | some kind => some (.store kind slot)
    | none => if opcode = Opcode.ret then some (.ret slot) else none

def ofConstant? : List UInt8 → Option Action
  | [opcode] =>
    if Opcode.iconst0 - 1 ≤ opcode ∧ opcode ≤ Opcode.iconst0 + 5 then
      some (.push (Int32.ofInt (opcode.toNat - Opcode.iconst0.toNat)))
    else none
  | [opcode, operand] =>
    if opcode = Opcode.bipush then some (.push operand.toInt8.toInt32)
    else if opcode = Opcode.ldc then some (.constant operand.toUInt16)
    else none
  | [opcode, high, low] =>
    let operand := UInt16.ofNat (Binary.BigEndian.value [high, low])
    if opcode = Opcode.sipush then some (.push operand.toInt16.toInt32)
    else if opcode = Opcode.ldcW then some (.constant operand)
    else if opcode = Opcode.ldc2W then some (.wideConstant operand)
    else none
  | _ => none

def ofBytes? (bytes : List UInt8) : Option Action :=
  ((accessed? bytes).bind fun access => ofAccess? access.1 access.2) <|> ofConstant? bytes

def Pushes (pool : Pool) : Action → Int32 → Prop
  | push value, number => value = number
  | constant index, number => pool.At index (.integer number)
  | _, _ => False

end Action

section Spelled

variable {kind : ValueKind} {slot : Nat} {opcode : Opcode} {bytes : List UInt8} {action : Action}

theorem ofAccess?_load : Action.ofAccess? kind.loadOpcode slot = some (.load kind slot) := by
  cases kind <;> rfl

theorem ofAccess?_store : Action.ofAccess? kind.storeOpcode slot = some (.store kind slot) := by
  cases kind <;> rfl

theorem ofAccess?_ret : Action.ofAccess? Opcode.ret slot = some (.ret slot) :=
  rfl

theorem ofBytes?_of_accessed (accessed : accessed? bytes = some (opcode, slot))
    (known : Action.ofAccess? opcode slot = some action) : Action.ofBytes? bytes = some action := by
  rw [Action.ofBytes?, accessed, Option.bind_some, known]
  rfl

theorem ofBytes?_load (fits : slot ≤ 65535) :
    Action.ofBytes? (Buffer.accessBytes kind.loadOpcode Opcode.iload0 kind slot) =
      some (.load kind slot) :=
  ofBytes?_of_accessed (accessed?_load fits) ofAccess?_load

theorem ofBytes?_store (fits : slot ≤ 65535) :
    Action.ofBytes? (Buffer.accessBytes kind.storeOpcode Opcode.istore0 kind slot) =
      some (.store kind slot) :=
  ofBytes?_of_accessed (accessed?_store fits) ofAccess?_store

theorem ofBytes?_ret (fits : slot ≤ 65535) :
    Action.ofBytes? (slottedBytes Opcode.ret slot) = some (.ret slot) :=
  ofBytes?_of_accessed (accessed?_slotted (by decide) fits) ofAccess?_ret

def constantBytes (index : Pool.Index) : List UInt8 :=
  if index ≤ 255 then [Opcode.ldc, index.toUInt8] else Opcode.ldcW :: Binary.Writer.u16 index

theorem value_u16 (word : UInt16) : Binary.BigEndian.value (Binary.Writer.u16 word) = word.toNat := by
  rw [Binary.Writer.u16, Binary.BigEndian.value_bytes]
  exact Nat.mod_eq_of_lt word.toNat_lt

theorem u16_eq (word : UInt16) : ∃ high low, Binary.Writer.u16 word = [high, low] ∧
    UInt16.ofNat (Binary.BigEndian.value [high, low]) = word := by
  refine ⟨_, _, rfl, ?_⟩
  have same := value_u16 word
  simp only [Binary.Writer.u16, Binary.BigEndian.bytes, List.nil_append, List.singleton_append] at same
  rw [same, UInt16.ofNat_toNat]

theorem ofBytes?_constant (index : Pool.Index) :
    Action.ofBytes? (constantBytes index) = some (.constant index) := by
  unfold constantBytes
  split
  · rename_i near
    have same : index.toUInt8.toUInt16 = index := by
      apply UInt16.toNat_inj.1
      have near : index.toNat ≤ 255 := near
      simp
      omega
    show some (Action.constant index.toUInt8.toUInt16) = _
    rw [same]
  · obtain ⟨high, low, spelled, same⟩ := u16_eq index
    rw [spelled]
    show some (Action.constant (UInt16.ofNat (Binary.BigEndian.value [high, low]))) = _
    rw [same]

theorem ofBytes?_wideConstant (index : Pool.Index) :
    Action.ofBytes? (Opcode.ldc2W :: Binary.Writer.u16 index) = some (.wideConstant index) := by
  obtain ⟨high, low, spelled, same⟩ := u16_eq index
  rw [spelled]
  show some (Action.wideConstant (UInt16.ofNat (Binary.BigEndian.value [high, low]))) = _
  rw [same]

def integerBytes? (value : Int32) : Option (List UInt8) :=
  if -1 ≤ value.toInt ∧ value.toInt ≤ 5 then
    some [UInt8.ofNat (Opcode.iconst0.toNat + value.toInt).toNat]
  else if -128 ≤ value.toInt ∧ value.toInt ≤ 127 then
    some [Opcode.bipush, value.toInt8.toUInt8]
  else if -32768 ≤ value.toInt ∧ value.toInt ≤ 32767 then
    some (Opcode.sipush :: Binary.Writer.u16 value.toInt16.toUInt16)
  else none

theorem ofBytes?_small (number : Fin 7) : Action.ofBytes?
    [UInt8.ofNat (Opcode.iconst0.toNat + ((number : Int) - 1)).toNat] =
      some (.push (Int32.ofInt ((number : Int) - 1))) := by
  revert number
  decide

theorem ofBytes?_integer {value : Int32} (known : integerBytes? value = some bytes) :
    Action.ofBytes? bytes = some (.push value) := by
  unfold integerBytes? at known
  split at known
  · cases known
    have number := ofBytes?_small ⟨(value.toInt + 1).toNat, by omega⟩
    have same : ((value.toInt + 1).toNat : Int) - 1 = value.toInt := by omega
    rwa [same, Int32.ofInt_toInt] at number
  · split at known
    · rename_i byte
      cases known
      have same : value.toInt8.toUInt8.toInt8.toInt32 = value := by
        rw [Int8.toInt8_toUInt8, ← Int32.toInt_inj, Int8.toInt_toInt32, Int32.toInt_toInt8]
        exact Int.bmod_eq_of_le (by omega) (by omega)
      show some (Action.push value.toInt8.toUInt8.toInt8.toInt32) = _
      rw [same]
    · split at known
      · rename_i word
        cases known
        have same : value.toInt16.toUInt16.toInt16.toInt32 = value := by
          rw [Int16.toInt16_toUInt16, ← Int32.toInt_inj, Int16.toInt_toInt32, Int32.toInt_toInt16]
          exact Int.bmod_eq_of_le (by omega) (by omega)
        obtain ⟨high, low, spelled, operand⟩ := u16_eq value.toInt16.toUInt16
        rw [spelled]
        show some (Action.push (UInt16.ofNat (Binary.BigEndian.value [high, low])).toInt16.toInt32) = _
        rw [operand, same]
      · cases known

end Spelled

def Action.size : Action → Nat
  | load _ slot | store _ slot => if slot < 4 then 1 else if slot ≤ 255 then 2 else 4
  | ret slot => if slot ≤ 255 then 2 else 4
  | push value =>
    if -1 ≤ value.toInt ∧ value.toInt ≤ 5 then 1
    else if -128 ≤ value.toInt ∧ value.toInt ≤ 127 then 2
    else 3
  | constant index => if index ≤ 255 then 2 else 3
  | wideConstant _ => 3

section Size

variable {bytes : List UInt8} {opcode : Opcode} {slot : Nat} {action : Action}

theorem family_ne_ret (offset : UInt8) :
    Opcode.iload + offset / 4 ≠ Opcode.ret ∧ Opcode.istore + offset / 4 ≠ Opcode.ret := by
  have bound := offset.toNat_lt
  constructor
  all_goals
    intro same
    have same := congrArg UInt8.toNat same
    simp only [UInt8.toNat_add, UInt8.toNat_div, Opcode.iload, Opcode.istore, Opcode.ret,
      UInt8.reduceToNat] at same
    omega

theorem slot_lt_four (offset : UInt8) : (offset % 4).toNat < 4 := by
  rw [UInt8.toNat_mod]
  exact Nat.mod_lt _ (by decide)

theorem reach_of_accessed (accessed : accessed? bytes = some (opcode, slot)) :
    bytes.length = 1 ∧ slot < 4 ∧ opcode ≠ Opcode.ret ∨ bytes.length = 2 ∧ slot ≤ 255 ∨
      opcode = Opcode.iinc ∨ bytes.length = 4 := by
  unfold accessed? at accessed
  split at accessed
  · split at accessed
    · cases accessed
      exact .inl ⟨rfl, slot_lt_four _, (family_ne_ret _).1⟩
    · split at accessed
      · cases accessed
        exact .inl ⟨rfl, slot_lt_four _, (family_ne_ret _).2⟩
      · cases accessed
  · rename_i operand
    split at accessed
    · cases accessed
      have := operand.toNat_lt
      exact .inr (.inl ⟨rfl, by omega⟩)
    · cases accessed
  · split at accessed
    · rename_i same
      cases accessed
      exact .inr (.inr (.inl same))
    · cases accessed
  · exact .inr (.inr (.inr rfl))
  · split at accessed
    · rename_i same
      cases accessed
      exact .inr (.inr (.inl same.2))
    · cases accessed
  · cases accessed

theorem ofAccess?_eq (known : Action.ofAccess? opcode slot = some action) :
    (∃ kind, action = .load kind slot) ∨ (∃ kind, action = .store kind slot) ∨
      opcode = Opcode.ret ∧ action = .ret slot := by
  unfold Action.ofAccess? at known
  split at known
  · cases known
    exact .inl ⟨_, rfl⟩
  · split at known
    · cases known
      exact .inr (.inl ⟨_, rfl⟩)
    · split at known
      · rename_i same
        cases known
        exact .inr (.inr ⟨same, rfl⟩)
      · cases known

theorem size_le_of_access (accessed : accessed? bytes = some (opcode, slot))
    (known : Action.ofAccess? opcode slot = some action) : action.size ≤ bytes.length := by
  have noIncrement : opcode ≠ Opcode.iinc := by
    rintro rfl
    cases known
  obtain near | narrow | increment | wide := reach_of_accessed accessed
  · obtain ⟨kind, rfl⟩ | ⟨kind, rfl⟩ | ⟨rfl, rfl⟩ := ofAccess?_eq known
    · simp [Action.size, near]
    · simp [Action.size, near]
    · exact absurd rfl near.2.2
  · obtain ⟨kind, rfl⟩ | ⟨kind, rfl⟩ | ⟨-, rfl⟩ := ofAccess?_eq known
    all_goals
      simp only [Action.size, narrow]
      grind
  · exact absurd increment noIncrement
  · obtain ⟨kind, rfl⟩ | ⟨kind, rfl⟩ | ⟨-, rfl⟩ := ofAccess?_eq known
    all_goals
      simp only [Action.size, wide]
      grind

theorem size_push_small {value : Int32} (least : -1 ≤ value.toInt) (most : value.toInt ≤ 5) :
    Action.size (.push value) = 1 :=
  if_pos ⟨least, most⟩

theorem size_push_byte {value : Int32} (least : -128 ≤ value.toInt) (most : value.toInt ≤ 127) :
    Action.size (.push value) ≤ 2 := by
  rw [Action.size]
  split
  · decide
  · rw [if_pos ⟨least, most⟩]

theorem size_push_le (value : Int32) : Action.size (.push value) ≤ 3 := by
  rw [Action.size]
  split
  · decide
  · split
    · decide
    · decide

theorem size_constant_mono {index index' : Pool.Index} (least : index ≤ index') :
    Action.size (.constant index) ≤ Action.size (.constant index') := by
  simp only [Action.size]
  split
  · split
    · exact Nat.le_refl 2
    · decide
  · rename_i far
    rw [if_neg fun near => far (UInt16.le_trans least near)]

theorem size_constant_le (index : Pool.Index) : Action.size (.constant index) ≤ 3 := by
  rw [Action.size]
  split
  · decide
  · decide

theorem toInt_small {opcode : Opcode} (least : Opcode.iconst0 - 1 ≤ opcode)
    (most : opcode ≤ Opcode.iconst0 + 5) :
    (Int32.ofInt (opcode.toNat - Opcode.iconst0.toNat)).toInt = opcode.toNat - 3 := by
  have least : 2 ≤ opcode.toNat := least
  have most : opcode.toNat ≤ 8 := most
  rw [Int32.toInt_ofInt]
  exact Int.bmod_eq_of_le (by simp [Opcode.iconst0]; omega) (by simp [Opcode.iconst0]; omega)

theorem size_le_of_constant (known : Action.ofConstant? bytes = some action) :
    action.size ≤ bytes.length := by
  unfold Action.ofConstant? at known
  split at known
  · rename_i opcode
    split at known
    · rename_i inRange
      cases known
      have number := toInt_small inRange.1 inRange.2
      have least : 2 ≤ opcode.toNat := inRange.1
      have most : opcode.toNat ≤ 8 := inRange.2
      exact (size_push_small (by omega) (by omega)).le
    · cases known
  · rename_i operand
    split at known
    · cases known
      have least := operand.toInt8.le_toInt
      have most := operand.toInt8.toInt_lt
      rw [← Int8.toInt_toInt32] at least most
      exact size_push_byte (by omega) (by omega)
    · split at known
      · cases known
        have near : operand.toUInt16 ≤ 255 := by
          have := operand.toNat_lt
          rw [UInt16.le_iff_toNat_le]
          simp
          omega
        rw [Action.size, if_pos near]
        rfl
      · cases known
  · dsimp only at known
    split at known
    · cases known
      exact size_push_le _
    · split at known
      · cases known
        exact size_constant_le _
      · split at known
        · cases known
          exact Nat.le_refl 3
        · cases known
  · cases known

theorem size_le_of_ofBytes? (known : Action.ofBytes? bytes = some action) :
    action.size ≤ bytes.length := by
  unfold Action.ofBytes? at known
  obtain access | constant := (Option.orElse_eq_some _ _ _).1 known
  · obtain ⟨⟨opcode, slot⟩, accessed, known⟩ := Option.bind_eq_some_iff.1 access
    exact size_le_of_access accessed known
  · exact size_le_of_constant constant.2

def NeedsPool (value : Int32) : Prop :=
  ∀ bytes, Action.ofBytes? bytes ≠ some (.push value)

theorem word_of_push {value : Int32} (known : Action.ofConstant? bytes = some (.push value)) :
    -32768 ≤ value.toInt ∧ value.toInt ≤ 32767 := by
  have word (number : Int16) :
      -32768 ≤ number.toInt32.toInt ∧ number.toInt32.toInt ≤ 32767 := by
    have least := number.le_toInt
    have most := number.toInt_lt
    rw [Int16.toInt_toInt32]
    omega
  have byte (number : Int8) : -32768 ≤ number.toInt32.toInt ∧ number.toInt32.toInt ≤ 32767 := by
    have least := number.le_toInt
    have most := number.toInt_lt
    rw [Int8.toInt_toInt32]
    omega
  unfold Action.ofConstant? at known
  split at known
  · split at known
    · rename_i opcode inRange
      cases known
      rw [toInt_small inRange.1 inRange.2]
      have most : opcode.toNat ≤ 8 := inRange.2
      omega
    · cases known
  · split at known
    · cases known
      exact byte _
    · split at known
      · cases known
      · cases known
  · dsimp only at known
    split at known
    · cases known
      exact word _
    · split at known
      · cases known
      · split at known
        · cases known
        · cases known
  · cases known

theorem needsPool_of_none {value : Int32} (none : integerBytes? value = none) : NeedsPool value := by
  intro bytes known
  unfold Action.ofBytes? at known
  obtain access | ⟨-, constant⟩ := (Option.orElse_eq_some _ _ _).1 known
  · obtain ⟨⟨opcode, slot⟩, _, known⟩ := Option.bind_eq_some_iff.1 access
    obtain ⟨_, ⟨⟩⟩ | ⟨_, ⟨⟩⟩ | ⟨_, ⟨⟩⟩ := ofAccess?_eq known
  · have inWord := word_of_push constant
    unfold integerBytes? at none
    rw [if_pos inWord] at none
    split at none
    · cases none
    · split at none
      · cases none
      · cases none

end Size

end ClassSplice.Machine
