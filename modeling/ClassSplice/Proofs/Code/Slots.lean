import ClassSplice.Proofs.Code.Listing
import ClassSplice.Proofs.Code.Spelling

namespace ClassSplice.Code

namespace Instruction

/-- Offsets of the displacements of an instruction at `pos`, in the order of its targets. -/
def slots (pos : Nat) : Instruction → List Nat
  | plain _ => []
  | branch .. | wideBranch .. => [pos + 1]
  | tableSwitch _ _ _ targets =>
    switchOperands pos :: (List.range targets.length).map fun i => switchOperands pos + 12 + 4 * i
  | lookupSwitch _ cases =>
    switchOperands pos :: (List.range cases.length).map fun i => switchOperands pos + 12 + 8 * i

def hasWideSlots : Instruction → Bool
  | branch .. => false
  | _ => true

def retarget (targets : List Int) : Instruction → Instruction
  | plain bytes => plain bytes
  | branch opcode target => branch opcode (targets.headD target)
  | wideBranch opcode target => wideBranch opcode (targets.headD target)
  | tableSwitch default low high _ => tableSwitch (targets.headD default) low high targets.tail
  | lookupSwitch default cases =>
    lookupSwitch (targets.headD default) ((cases.map Prod.fst).zip targets.tail)

theorem targets_retarget {pos : Nat} {instruction : Instruction} {targets : List Int}
    (count : (instruction.slots pos).length = targets.length) :
    (instruction.retarget targets).targets = targets := by
  cases targets with
  | nil => cases instruction <;> simp_all [slots, retarget, Instruction.targets]
  | cons target targets =>
      cases instruction with
      | plain => cases count
      | branch | wideBranch => simp_all [slots, retarget, Instruction.targets]
      | tableSwitch => rfl
      | lookupSwitch default cases =>
          have count : cases.length = targets.length := by simpa [slots] using count
          simp only [retarget, Instruction.targets, List.headD_cons, List.tail_cons]
          rw [List.map_snd_zip (by rw [List.length_map, count])]

end Instruction

def slotWidth (isWide : Bool) : Nat :=
  if isWide then 4 else 2

theorem Instruction.slot_bounds {pos slot : Nat} {instruction : Instruction}
    (member : slot ∈ instruction.slots pos) :
    pos < slot ∧ slot + slotWidth instruction.hasWideSlots ≤ pos + instruction.lengthAt pos := by
  cases instruction with
  | plain => cases member
  | branch | wideBranch =>
      cases List.mem_singleton.1 member
      exact ⟨Nat.lt_succ_self _, by simp [slotWidth, hasWideSlots, lengthAt]⟩
  | tableSwitch | lookupSwitch =>
      simp only [slots, List.mem_cons, List.mem_map, List.mem_range] at member
      simp only [slotWidth, hasWideSlots, lengthAt, if_true]
      rcases member with rfl | ⟨i, inRange, rfl⟩
      · unfold switchOperands
        omega
      · unfold switchOperands
        omega

theorem Instruction.pairwise_slots (pos : Nat) (instruction : Instruction) :
    (instruction.slots pos).Pairwise fun one other =>
      one + slotWidth instruction.hasWideSlots ≤ other := by
  cases instruction with
  | plain => exact .nil
  | branch | wideBranch => exact List.pairwise_singleton _ _
  | tableSwitch | lookupSwitch =>
      simp only [slots, List.pairwise_cons, List.mem_map, List.mem_range, List.pairwise_map,
        slotWidth, hasWideSlots, if_true]
      refine ⟨fun slot ⟨i, _, same⟩ => by omega, List.pairwise_lt_range.imp fun less => by omega⟩

def Displaces (code : Array UInt8) (origin slot : Nat) (isWide : Bool) (target : Int) : Prop :=
  if isWide then ∃ n, i32At code slot = .ok n ∧ (origin : Int) + n.toInt = target
  else ∃ n, i16At code slot = .ok n ∧ (origin : Int) + n.toInt = target

section Same

variable {code code' : Array UInt8} {pos : Nat} {bytes : List UInt8}

theorem SameOn.holds (same : SameOn code code' pos (pos + bytes.length))
    (size : code'.size = code.size) (held : Holds code pos bytes) : Holds code' pos bytes := by
  have inCode := held.le_size
  have held' := holds_extract (size ▸ inCode) (Nat.le_add_right pos bytes.length)
  have bytes : (code'.extract pos (pos + bytes.length)).toList = bytes := by
    refine Eq.trans ?_ (held.extract rfl)
    rw [Array.toList_inj]
    refine Array.ext (by simp only [Array.size_extract, size]) fun i inside inside' => ?_
    rw [Array.size_extract] at inside
    have known := same (pos + i) (Nat.le_add_right _ _) (by omega)
    rw [Array.getElem?_eq_getElem (by omega), Array.getElem?_eq_getElem (by omega)] at known
    simpa using known
  rwa [bytes] at held'

theorem SameOn.byteAt {byte : UInt8} (same : SameOn code code' pos (pos + 1))
    (read : Code.byteAt code pos = .ok byte) : Code.byteAt code' pos = .ok byte := by
  rw [byteAt_eq_ok] at read ⊢
  rw [same pos (Nat.le_refl _) (Nat.lt_succ_self _), read]

theorem SameOn.extract {width : Nat} (same : SameOn code code' pos (pos + width))
    (size : code'.size = code.size) (inCode : pos + width ≤ code.size) :
    ∃ bytes, bytes.length = width ∧ Holds code pos bytes ∧ Holds code' pos bytes := by
  have held := holds_extract inCode (Nat.le_add_right pos width)
  have length : (code.extract pos (pos + width)).toList.length = width := by
    rw [Array.length_toList, Array.size_extract]
    omega
  exact ⟨_, length, held, SameOn.holds (length.symm ▸ same) size held⟩

theorem SameOn.i32At {n : Int32} (same : SameOn code code' pos (pos + 4))
    (size : code'.size = code.size) (inCode : pos + 4 ≤ code.size)
    (read : Code.i32At code pos = .ok n) : Code.i32At code' pos = .ok n := by
  obtain ⟨bytes, length, held, held'⟩ := same.extract size inCode
  have read : Code.i32At code (pos + 0) = .ok n := read
  exact i32At_congr held held' (Nat.le_of_eq length.symm) read

theorem Displaces.same {origin : Nat} {isWide : Bool} {target : Int}
    (displaces : Displaces code origin pos isWide target)
    (same : SameOn code code' pos (pos + slotWidth isWide)) (size : code'.size = code.size)
    (inCode : pos + slotWidth isWide ≤ code.size) : Displaces code' origin pos isWide target := by
  obtain ⟨bytes, length, held, held'⟩ := same.extract size inCode
  cases isWide with
  | false =>
      obtain ⟨n, read, leads⟩ := displaces
      have read : Code.i16At code (pos + 0) = .ok n := read
      exact ⟨n, i16At_congr held held' (Nat.le_of_eq length.symm) read, leads⟩
  | true =>
      obtain ⟨n, read, leads⟩ := displaces
      have read : Code.i32At code (pos + 0) = .ok n := read
      exact ⟨n, i32At_congr held held' (Nat.le_of_eq length.symm) read, leads⟩

end Same

section Retarget

variable {code code' : Array UInt8} {pos : Nat} {located : Located} {targets : List Int}

theorem exists_distances {operand stride count : Nat}
    (filled : List.Forall₂ (fun slot target => Displaces code' pos slot true target)
      ((List.range count).map fun i => operand + stride * i) targets) :
    ∃ distances : List Int32, distances.length = count ∧
      targets = distances.map (fun distance => (pos : Int) + distance.toInt) ∧
      ∀ i (inRange : i < distances.length),
        i32At code' (operand + stride * i) = .ok distances[i] := by
  obtain ⟨length, each⟩ := List.forall₂_iff_get.1 filled
  simp only [List.length_map, List.length_range] at length
  have each : ∀ i (inRange : i < targets.length), ∃ n : Int32,
      i32At code' (operand + stride * i) = .ok n ∧ (pos : Int) + n.toInt = targets[i] := by
    intro i inRange
    have filled := each i (by simpa [length] using inRange) inRange
    simpa [Displaces] using filled
  choose distance read same using each
  refine ⟨List.ofFn fun i : Fin targets.length => distance i i.2, by simp [length], ?_, ?_⟩
  · apply List.ext_getElem
    · simp
    · intro i inRange _
      simp [same i inRange]
  · intro i inRange
    rw [List.getElem_ofFn]
    exact read i _

theorem Reads.retarget (reads : Reads code pos located) (size : code'.size = code.size)
    (same : ∀ i, pos ≤ i → i < pos + located.length →
      (∀ slot ∈ located.instruction.slots pos,
        i < slot ∨ slot + slotWidth located.instruction.hasWideSlots ≤ i) → code'[i]? = code[i]?)
    (filled : List.Forall₂ (fun slot target =>
      Displaces code' pos slot located.instruction.hasWideSlots target)
      (located.instruction.slots pos) targets) :
    Reads code' pos ⟨located.length, located.instruction.retarget targets⟩ := by
  have room := reads.length_pos
  have first {opcode : Opcode} (read : byteAt code pos = .ok opcode) :
      byteAt code' pos = .ok opcode := by
    apply SameOn.byteAt _ read
    intro i low high
    refine same i low (by omega) fun slot member => .inl ?_
    have := (Instruction.slot_bounds member).1
    omega
  cases spelled_of_reads reads with
  | @plain opcode form bytes read ordinary found claimed held =>
      refine reads.plain_congr (SameOn.holds (fun i low high => ?_) size held)
      exact same i low high nofun
  | branch read short readDistance inCode =>
      obtain ⟨_, _, ⟨distance, readTarget, rfl⟩, _, rfl⟩ := List.forall₂_cons_left_iff.1 filled
      exact reads_of_spelled (.branch (first read) short readTarget (size ▸ inCode))
  | wideBranch read wide readDistance inCode =>
      obtain ⟨_, _, ⟨distance, readTarget, rfl⟩, _, rfl⟩ := List.forall₂_cons_left_iff.1 filled
      exact reads_of_spelled (.wideBranch (first read) wide readTarget (size ▸ inCode))
  | @tableSwitch default low high distances read readDefault readLow readHigh ordered count
      readTargets inCode =>
      simp only [Instruction.slots, List.length_map, Instruction.hasWideSlots] at filled same
      obtain ⟨_, rest, ⟨default', readDefault', rfl⟩, others, rfl⟩ :=
        List.forall₂_cons_left_iff.1 filled
      obtain ⟨distances', length, rfl, readTargets'⟩ := exists_distances others
      have key {start : Nat} {n : Int32} (low : switchOperands pos + 4 ≤ start)
          (high : start + 4 ≤ switchOperands pos + 12) (read : i32At code start = .ok n) :
          i32At code' start = .ok n := by
        rw [switchOperands_eq] at low high
        refine SameOn.i32At (fun i above below => same i (by omega) (by omega) ?_) size (by omega) read
        simp only [List.mem_cons, List.mem_map, slotWidth, if_true, switchOperands_eq]
        rintro slot (rfl | ⟨j, _, rfl⟩)
        · omega
        · omega
      rw [← length] at inCode count ⊢
      exact reads_of_spelled (.tableSwitch (first read) readDefault' (key (by omega) (by omega) readLow)
        (key (by omega) (by omega) readHigh) ordered count readTargets' (size ▸ inCode))
  | @lookupSwitch default pairs cases read readDefault readCount positive count readKey readCase
      inCode =>
      simp only [Instruction.slots, List.length_map, Instruction.hasWideSlots] at filled same
      obtain ⟨_, rest, ⟨default', readDefault', rfl⟩, others, rfl⟩ :=
        List.forall₂_cons_left_iff.1 filled
      obtain ⟨distances, length, rfl, readTargets'⟩ := exists_distances others
      have word {start : Nat} {n : Int32} (between : start = switchOperands pos + 4 ∨
          ∃ j, j < cases.length ∧ start = switchOperands pos + 8 + 8 * j)
          (read : i32At code start = .ok n) : i32At code' start = .ok n := by
        rw [switchOperands_eq] at between
        refine SameOn.i32At (fun i above below => same i (by omega) (by omega) ?_) size (by omega) read
        simp only [List.mem_cons, List.mem_map, slotWidth, if_true, switchOperands_eq]
        rintro slot (rfl | ⟨j, _, rfl⟩)
        · omega
        · omega
      have zipped : ((cases.map Prod.fst).zip distances).length = cases.length := by
        rw [List.length_zip, List.length_map, length, Nat.min_self]
      have retargeted {placed : Int32 × Int32 → Int32 × Int}
          (same : ∀ pair, placed pair = (pair.1, (pos : Int) + pair.2.toInt)) :
          ((cases.map placed).map Prod.fst).zip
            (distances.map fun distance => (pos : Int) + distance.toInt) =
          ((cases.map Prod.fst).zip distances).map placed := by
        obtain rfl : placed = _ := funext same
        rw [List.map_map, List.zip_map_right]
        rfl
      simp only [Instruction.retarget, List.headD_cons, List.tail_cons]
      rw [retargeted ?placed]
      case placed => exact fun _ => rfl
      rw [← zipped] at inCode count ⊢
      refine reads_of_spelled (.lookupSwitch (first read) readDefault' (word (.inl rfl) readCount)
        positive count (fun i inRange => ?_) (fun i inRange => ?_) (size ▸ inCode))
      · rw [List.getElem_zip, List.getElem_map]
        exact word (.inr ⟨i, by omega, rfl⟩) (readKey i _)
      · rw [List.getElem_zip]
        exact readTargets' i _

end Retarget

end ClassSplice.Code
