import ClassSplice.Proofs.Machine.Action

namespace ClassSplice.Machine

open Code (Buffer Holds Opcode Reads)
open Descriptor (ValueKind)
open Edit (accesses_load accesses_store reads_slotted slottedBytes)
open Pool (Answered Request)

/-- The bytes are an instruction that does this wherever they stand, and none that does it is shorter. -/
structure Compact (bytes : List UInt8) (action : Action) : Prop where
  reads {code : Array UInt8} {pos : Nat} (held : Holds code pos bytes) :
    Reads code pos ⟨bytes.length, .plain bytes⟩
  does : Action.ofBytes? bytes = some action
  shortest {other : List UInt8} (same : Action.ofBytes? other = some action) :
    bytes.length ≤ other.length

section Compact

variable {kind : ValueKind} {slot : Nat} {bytes : List UInt8} {action : Action} {opcode : Opcode}

theorem compact_of_size (reads : ∀ {code : Array UInt8} {pos : Nat}, Holds code pos bytes →
      Reads code pos ⟨bytes.length, .plain bytes⟩)
    (does : Action.ofBytes? bytes = some action) (size : bytes.length = action.size) :
    Compact bytes action where
  reads := reads
  does := does
  shortest same := by
    rw [size]
    exact size_le_of_ofBytes? same

theorem compact_load (fits : slot ≤ 65535) :
    Compact (Buffer.accessBytes kind.loadOpcode Opcode.iload0 kind slot) (.load kind slot) := by
  refine compact_of_size ((accesses_load kind).reads slot) (ofBytes?_load fits) ?_
  simp only [Buffer.accessBytes, Action.size, apply_ite List.length]
  rfl

theorem compact_store (fits : slot ≤ 65535) :
    Compact (Buffer.accessBytes kind.storeOpcode Opcode.istore0 kind slot) (.store kind slot) := by
  refine compact_of_size ((accesses_store kind).reads slot) (ofBytes?_store fits) ?_
  simp only [Buffer.accessBytes, Action.size, apply_ite List.length]
  rfl

theorem compact_ret (fits : slot ≤ 65535) : Compact (slottedBytes Opcode.ret slot) (.ret slot) := by
  refine compact_of_size (reads_slotted (by cbv) (by decide) (by decide) slot) (ofBytes?_ret fits) ?_
  simp only [slottedBytes, Action.size, apply_ite List.length]
  rfl

theorem reads_of_fixed (form : opcode.form? = some (.fixed (bytes.length + 1)))
    (ordinary : opcode.namesPlace = false) {code : Array UInt8} {pos : Nat}
    (held : Holds code pos (opcode :: bytes)) :
    Reads code pos ⟨(opcode :: bytes).length, .plain (opcode :: bytes)⟩ :=
  Code.reads_of_spelled
    (.plain (Code.byteAt_of_holds (Code.holds_cons.1 held).1) ordinary form rfl held)

theorem length_constantBytes (index : Pool.Index) :
    (constantBytes index).length = Action.size (.constant index) := by
  simp only [constantBytes, Action.size, apply_ite List.length]
  rfl

theorem compact_constant (index : Pool.Index) : Compact (constantBytes index) (.constant index) := by
  refine compact_of_size ?_ (ofBytes?_constant index) (length_constantBytes index)
  intro code pos
  unfold constantBytes
  split
  · have form : Opcode.form? Opcode.ldc = some (.fixed 2) := by cbv
    exact reads_of_fixed form (by decide)
  · have form : Opcode.form? Opcode.ldcW = some (.fixed 3) := by cbv
    exact reads_of_fixed form (by decide)

theorem compact_wideConstant (index : Pool.Index) :
    Compact (Opcode.ldc2W :: Binary.Writer.u16 index) (.wideConstant index) := by
  have form : Opcode.form? Opcode.ldc2W = some (.fixed 3) := by cbv
  exact compact_of_size (fun held => reads_of_fixed form (by decide) held)
    (ofBytes?_wideConstant index) rfl

theorem spelled_small (number : Fin 7) :
    let opcode : Opcode := UInt8.ofNat (Opcode.iconst0.toNat + ((number : Int) - 1)).toNat
    opcode.form? = some (.fixed 1) ∧ opcode.namesPlace = false := by
  fin_cases number
  all_goals exact ⟨by cbv, by decide⟩

theorem compact_integer {value : Int32} (known : integerBytes? value = some bytes) :
    Compact bytes (.push value) := by
  have does := ofBytes?_integer known
  unfold integerBytes? at known
  split at known
  · rename_i small
    cases known
    obtain ⟨form, ordinary⟩ := spelled_small ⟨(value.toInt + 1).toNat, by omega⟩
    have same : ((value.toInt + 1).toNat : Int) - 1 = value.toInt := by omega
    rw [same] at form ordinary
    refine compact_of_size (fun held => reads_of_fixed form ordinary held) does ?_
    rw [Action.size, if_pos small]
    rfl
  · rename_i notSmall
    split at known
    · rename_i byte
      cases known
      have form : Opcode.form? Opcode.bipush = some (.fixed 2) := by cbv
      refine compact_of_size (fun held => reads_of_fixed form (by decide) held) does ?_
      rw [Action.size, if_neg notSmall, if_pos byte]
      rfl
    · rename_i notByte
      split at known
      · cases known
        have form : Opcode.form? Opcode.sipush = some (.fixed 3) := by cbv
        refine compact_of_size (fun held => reads_of_fixed form (by decide) held) does ?_
        rw [Action.size, if_neg notSmall, if_neg notByte]
        rfl
      · cases known

end Compact

/-- These bytes are added, an instruction that does this and is as short as can be. -/
structure Adds (buffer after : Buffer) (bytes : List UInt8) (action : Action) : Prop where
  added : after.bytes.toList = buffer.bytes.toList ++ bytes
  compact : Compact bytes action

section Adds

variable {buffer : Buffer} {kind : ValueKind} {slot : Nat}

theorem exists_addSlotted (buffer : Buffer) (opcode : Opcode) (fits : slot ≤ 65535) :
    ∃ after, buffer.addSlotted opcode slot = .ok after ∧
      after.bytes.toList = buffer.bytes.toList ++ slottedBytes opcode slot := by
  unfold Buffer.addSlotted slottedBytes
  split
  · exact ⟨_, rfl, by simp⟩
  · exact ⟨_, rfl, by simp⟩

theorem addSlotted_far (opcode : Opcode) (far : 65535 < slot) :
    buffer.addSlotted opcode slot = .error (.tooManyLocals slot) := by
  rw [Buffer.addSlotted, if_neg (by omega), if_neg (by omega)]

theorem exists_addAccess (opcode short : Opcode) (fits : slot ≤ 65535) :
    ∃ after, buffer.addAccess opcode short kind slot = .ok after := by
  unfold Buffer.addAccess
  split
  · exact ⟨_, rfl⟩
  · obtain ⟨added, slotted, _⟩ := exists_addSlotted buffer opcode fits
    rw [slotted]
    exact ⟨_, rfl⟩

theorem addAccess_far (opcode short : Opcode) (far : 65535 < slot) :
    buffer.addAccess opcode short kind slot = .error (.tooManyLocals slot) := by
  rw [Buffer.addAccess, if_neg (by omega), addSlotted_far opcode far]
  rfl

theorem adds_load (fits : slot ≤ 65535) : ∃ after bytes,
    buffer.addLoad slot kind = .ok after ∧ Adds buffer after bytes (.load kind slot) := by
  obtain ⟨after, added⟩ := exists_addAccess kind.loadOpcode Opcode.iload0 fits
  exact ⟨after, _, added, Buffer.toList_addAccess added, compact_load fits⟩

theorem adds_store (fits : slot ≤ 65535) : ∃ after bytes,
    buffer.addStore slot kind = .ok after ∧ Adds buffer after bytes (.store kind slot) := by
  obtain ⟨after, added⟩ := exists_addAccess kind.storeOpcode Opcode.istore0 fits
  exact ⟨after, _, added, Buffer.toList_addAccess added, compact_store fits⟩

theorem adds_ret (fits : slot ≤ 65535) : ∃ after bytes,
    buffer.addRet slot = .ok after ∧ Adds buffer after bytes (.ret slot) := by
  obtain ⟨added, slotted, bytes⟩ := exists_addSlotted buffer Opcode.ret fits
  refine ⟨added.reserveLocals (slot + 1), _, ?_, bytes, compact_ret fits⟩
  rw [Buffer.addRet, slotted]
  rfl

theorem adds_constant (buffer : Buffer) (index : Pool.Index) :
    Adds buffer (buffer.addLdc index) (constantBytes index) (.constant index) := by
  refine ⟨?_, compact_constant index⟩
  unfold Buffer.addLdc constantBytes
  split
  · simp
  · simp [Buffer.addIndexed]

theorem adds_wideConstant (buffer : Buffer) (index : Pool.Index) :
    Adds buffer (buffer.addLdc2 index) (Opcode.ldc2W :: Binary.Writer.u16 index)
      (.wideConstant index) :=
  ⟨by simp [Buffer.addLdc2, Buffer.addIndexed], compact_wideConstant index⟩

/-- What adding an instruction that pushes a number comes to: the pool is asked only for a number that no
instruction pushes by itself, and then no instruction that pushes it from the pool is shorter. -/
inductive AddsInteger (buffer : Buffer) (value : Int32) (pool : Pool) : Except Error Buffer × Pool → Prop
  | alone {after : Buffer} {bytes : List UInt8} (adds : Adds buffer after bytes (.push value)) :
      AddsInteger buffer value pool (.ok after, pool)
  | pooled {after : Buffer} {bytes : List UInt8} {index : Pool.Index} {pool' : Pool}
      (needed : NeedsPool value) (adds : Adds buffer after bytes (.constant index))
      (stands : pool'.At index (.integer value))
      (shortest : ∀ {other action}, Action.ofBytes? other = some action →
        action.Pushes pool' value → bytes.length ≤ other.length) :
      AddsInteger buffer value pool (.ok after, pool')
  | full {error : Error} {pool' : Pool} (needed : NeedsPool value)
      (answered : Answered (.integer value) pool' (.error error)) :
      AddsInteger buffer value pool (.error error, pool')

theorem addInteger_eq (buffer : Buffer) (value : Int32) (pool : Pool) :
    (∃ bytes after, integerBytes? value = some bytes ∧
      outcome (buffer.addInteger value) pool = (.ok after, pool) ∧
      after.bytes.toList = buffer.bytes.toList ++ bytes) ∨
    integerBytes? value = none ∧ outcome (buffer.addInteger value) pool =
      match outcome (Pool.intern (.integer value)) pool with
      | (.ok index, pool') => (.ok (buffer.addLdc index), pool')
      | (.error error, pool') => (.error error, pool') := by
  unfold Buffer.addInteger integerBytes?
  dsimp only
  split
  · exact .inl ⟨_, _, rfl, rfl, Buffer.toList_addOpcode _⟩
  · split
    · exact .inl ⟨_, _, rfl, rfl, by simp⟩
    · split
      · exact .inl ⟨_, _, rfl, rfl, by simp⟩
      · refine .inr ⟨rfl, ?_⟩
        rw [outcome_bind]
        rcases outcome (Pool.intern (.integer value)) pool with ⟨error | index, pool'⟩
        · rfl
        · rfl

theorem addsInteger {pool : Pool} (reached : pool.Reached) (buffer : Buffer) (value : Int32) :
    AddsInteger buffer value pool (outcome (buffer.addInteger value) pool) := by
  obtain ⟨bytes, after, known, added, spelled⟩ | ⟨none, added⟩ := addInteger_eq buffer value pool
  · rw [added]
    exact .alone ⟨spelled, compact_integer known⟩
  · rw [added]
    have needed := needsPool_of_none none
    have answered {result : Except Error Pool.Index} {pool' : Pool}
        (run : outcome (Request.integer value).run pool = (result, pool')) :
        Answered (.integer value) pool' result := Pool.answered_of_run reached.filled run
    rcases run : outcome (Pool.intern (.integer value)) pool with ⟨error | index, pool'⟩
    · exact .full needed (answered run)
    · obtain ⟨⟨constant, stands, denotes, first⟩, _⟩ := answered run
      cases denotes
      refine .pooled needed (adds_constant buffer index) stands ?_
      intro other action known pushes
      cases action with
      | push number =>
          cases pushes
          exact absurd known (needed other)
      | constant index' =>
          rw [length_constantBytes]
          exact (size_constant_mono (first index' pushes)).trans (size_le_of_ofBytes? known)
      | load | store | ret | wideConstant => cases pushes

end Adds

section InPlace

variable (kind : ValueKind) (slot : Nat) (buffer : Buffer)

def writeSlotted (opcode : Opcode) : ExceptT Error (StateM Buffer) Unit := do
  if slot ≤ 255 then
    modify fun buffer => buffer.addOpcode opcode
    modify fun buffer => buffer.addByte (UInt8.ofNat slot)
  else
    if 65535 < slot then throw (.tooManyLocals slot)
    modify fun buffer => buffer.addByte Opcode.wide
    modify fun buffer => buffer.addOpcode opcode
    modify fun buffer => buffer.addU16 (UInt16.ofNat slot)

def writeAccess (opcode short : Opcode) : ExceptT Error (StateM Buffer) Unit := do
  if slot < 4 then
    modify fun buffer => buffer.addOpcode (short + kind.family * 4 + UInt8.ofNat slot)
  else
    writeSlotted slot opcode
  modify fun buffer => buffer.reserveLocals (slot + kind.slots)

def writeLoad : ExceptT Error (StateM Buffer) Unit :=
  writeAccess kind slot kind.loadOpcode Opcode.iload0

def writeStore : ExceptT Error (StateM Buffer) Unit :=
  writeAccess kind slot kind.storeOpcode Opcode.istore0

def writeRet : ExceptT Error (StateM Buffer) Unit := do
  writeSlotted slot Opcode.ret
  modify fun buffer => buffer.reserveLocals (slot + 1)

def inPlace (change : Buffer → Except Error Buffer) : Except Error Unit × Buffer :=
  match change buffer with
  | .ok after => (.ok (), after)
  | .error error => (.error error, buffer)

theorem writeSlotted_atomic (opcode : Opcode) :
    outcome (writeSlotted slot opcode) buffer = inPlace buffer (·.addSlotted opcode slot) := by
  by_cases near : slot ≤ 255
  · rw [writeSlotted, if_pos near]
    simp only [inPlace, Buffer.addSlotted, if_pos near]
    rfl
  · rw [writeSlotted, if_neg near]
    by_cases far : 65535 < slot
    · rw [if_pos far, inPlace, addSlotted_far opcode far]
      rfl
    · rw [if_neg far]
      simp only [inPlace, Buffer.addSlotted, if_neg near, if_pos (Nat.le_of_not_lt far)]
      rfl

theorem writeAccess_atomic (opcode short : Opcode) :
    outcome (writeAccess kind slot opcode short) buffer =
      inPlace buffer (·.addAccess opcode short kind slot) := by
  by_cases near : slot < 4
  · rw [writeAccess, if_pos near]
    simp only [inPlace, Buffer.addAccess, if_pos near]
    rfl
  · rw [writeAccess, if_neg near, outcome_bind, writeSlotted_atomic]
    simp only [inPlace, Buffer.addAccess, if_neg near]
    cases buffer.addSlotted opcode slot with
    | error error => rfl
    | ok after => rfl

theorem writeRet_atomic :
    outcome (writeRet slot) buffer = inPlace buffer (·.addRet slot) := by
  rw [writeRet, outcome_bind, writeSlotted_atomic]
  simp only [inPlace, Buffer.addRet]
  cases buffer.addSlotted Opcode.ret slot with
  | error error => rfl
  | ok after => rfl

end InPlace

/-- Accesses to all slots that an instruction can reach are added, and constants and numbers, each as one
instruction that is as short as can be. Farther slots are refused, and then nothing is added. A number of
up to two bytes is compared with instructions that hold their number themselves: a load from the pool
means whatever constant the pool has there. -/
theorem encoders_compact (buffer : Buffer) :
    (∀ kind slot, slot ≤ 65535 →
      (∃ after bytes, buffer.addLoad slot kind = .ok after ∧
        Adds buffer after bytes (.load kind slot)) ∧
      (∃ after bytes, buffer.addStore slot kind = .ok after ∧
        Adds buffer after bytes (.store kind slot)) ∧
      ∃ after bytes, buffer.addRet slot = .ok after ∧ Adds buffer after bytes (.ret slot)) ∧
    (∀ index, ∃ bytes, Adds buffer (buffer.addLdc index) bytes (.constant index)) ∧
    (∀ value pool, pool.Reached →
      AddsInteger buffer value pool (outcome (buffer.addInteger value) pool)) ∧
    (∀ kind slot,
      outcome (writeLoad kind slot) buffer = inPlace buffer (·.addLoad slot kind) ∧
      outcome (writeStore kind slot) buffer = inPlace buffer (·.addStore slot kind) ∧
      outcome (writeRet slot) buffer = inPlace buffer (·.addRet slot)) ∧
    ∀ kind slot, 65535 < slot → ∀ write ∈ [writeLoad kind slot, writeStore kind slot, writeRet slot],
      outcome write buffer = (.error (.tooManyLocals slot), buffer) := by
  have written (kind : ValueKind) (slot : Nat) :
      outcome (writeLoad kind slot) buffer = inPlace buffer (·.addLoad slot kind) ∧
      outcome (writeStore kind slot) buffer = inPlace buffer (·.addStore slot kind) ∧
      outcome (writeRet slot) buffer = inPlace buffer (·.addRet slot) :=
    ⟨writeAccess_atomic kind slot buffer _ _, writeAccess_atomic kind slot buffer _ _,
      writeRet_atomic slot buffer⟩
  refine ⟨fun kind slot fits => ⟨adds_load fits, adds_store fits, adds_ret fits⟩,
    fun index => ⟨_, adds_constant buffer index⟩, fun value pool reached => addsInteger reached _ _,
    written, ?_⟩
  intro kind slot far write member
  obtain ⟨load, store, ret⟩ := written kind slot
  simp only [List.mem_cons, List.not_mem_nil, or_false] at member
  obtain rfl | rfl | rfl := member
  · rw [load, inPlace, Buffer.addLoad, addAccess_far _ _ far]
  · rw [store, inPlace, Buffer.addStore, addAccess_far _ _ far]
  · rw [ret, inPlace, Buffer.addRet, addSlotted_far _ far]
    rfl

theorem encoders_compact_empty :
    (∃ after bytes, (Buffer.empty 0 0).addLoad 300 .float = .ok after ∧
      Adds (.empty 0 0) after bytes (.load .float 300)) ∧
    AddsInteger (.empty 0 0) 40000 .empty (outcome ((Buffer.empty 0 0).addInteger 40000) .empty) ∧
    outcome (writeRet 65536) (.empty 0 0) = (.error (.tooManyLocals 65536), .empty 0 0) := by
  obtain ⟨accesses, _, integers, _, far⟩ := encoders_compact (.empty 0 0)
  exact ⟨(accesses .float 300 (by decide)).1, integers 40000 _ .empty,
    far .float 65536 (by decide) _ (by simp)⟩

end ClassSplice.Machine
