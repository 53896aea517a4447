import ClassSplice.Proofs.Code.Word

namespace ClassSplice.Code

def Opcode.form? (opcode : Opcode) : Option Opcode.Form :=
  opcode.facts?.map Opcode.Facts.form

def Opcode.namesPlace (opcode : Opcode) : Bool :=
  opcode.isShortBranch || opcode.isWideBranch || opcode.isSwitch

theorem Opcode.forall_of_fin (holds : Opcode → Bool)
    (table : ∀ n : Fin 256, holds (UInt8.ofNat n) = true) (opcode : Opcode) :
    holds opcode = true := by
  have := table ⟨opcode.toNat, opcode.toNat_lt⟩
  rwa [UInt8.ofNat_toNat] at this

theorem Opcode.form?_shortBranch {opcode : Opcode} (short : opcode.isShortBranch = true) :
    opcode.form? = some (.fixed 3) := by
  have := forall_of_fin (fun opcode =>
    !opcode.isShortBranch || decide (opcode.form? = some (.fixed 3))) (by decide +kernel) opcode
  simpa [short] using this

theorem Opcode.form?_wideBranch {opcode : Opcode} (wide : opcode.isWideBranch = true) :
    opcode.form? = some (.fixed 5) := by
  have := forall_of_fin (fun opcode =>
    !opcode.isWideBranch || decide (opcode.form? = some (.fixed 5))) (by decide +kernel) opcode
  simpa [wide] using this

theorem Opcode.form?_tableswitch : Opcode.tableswitch.form? = some .tableSwitch := by
  decide +kernel

theorem Opcode.form?_lookupswitch : Opcode.lookupswitch.form? = some .lookupSwitch := by
  decide +kernel

theorem Opcode.form?_ordinary {opcode : Opcode} {form : Opcode.Form}
    (ordinary : opcode.namesPlace = false) (found : opcode.form? = some form) :
    form ≠ .tableSwitch ∧ form ≠ .lookupSwitch := by
  have := forall_of_fin (fun opcode => opcode.namesPlace ||
    decide (opcode.form? ≠ some .tableSwitch ∧ opcode.form? ≠ some .lookupSwitch))
    (by decide +kernel) opcode
  simpa [ordinary, found] using this

theorem instructionLength_eq_ok {code : Array UInt8} {pos length : Nat} :
    instructionLength code pos = .ok length ↔
      ∃ opcode form, byteAt code pos = .ok opcode ∧ Opcode.form? opcode = some form ∧
        claimedLength code pos form = .ok length ∧ pos + length ≤ code.size := by
  rw [instructionLength, bind_eq_ok]
  constructor
  · rintro ⟨opcode, first, rest⟩
    split at rest
    · cases rest
    · rename_i facts found
      obtain ⟨length', claimed, rest⟩ := bind_eq_ok.1 rest
      split at rest
      · cases rest
      · rename_i fits
        cases rest
        exact ⟨opcode, facts.form, first, by simp [Opcode.form?, found], claimed, by omega⟩
  · rintro ⟨opcode, form, first, found, claimed, fits⟩
    refine ⟨opcode, first, ?_⟩
    obtain ⟨facts, known, rfl⟩ := Option.map_eq_some_iff.1 found
    rw [known]
    simp only [claimed, bind, Except.bind]
    rw [if_neg (by omega)]

/-- The reader finds this instruction at an offset. -/
def Reads (code : Array UInt8) (pos : Nat) (located : Located) : Prop :=
  instructionLength code pos = .ok located.length ∧
    Instruction.decode code pos located.length = .ok located.instruction

inductive Spelled (code : Array UInt8) (pos : Nat) : Located → Prop
  | plain {opcode : Opcode} {form : Opcode.Form} {bytes : List UInt8}
      (first : byteAt code pos = .ok opcode) (ordinary : opcode.namesPlace = false)
      (found : opcode.form? = some form) (claimed : claimedLength code pos form = .ok bytes.length)
      (held : Holds code pos bytes) : Spelled code pos ⟨bytes.length, .plain bytes⟩
  | branch {opcode : Opcode} {distance : Int16} (first : byteAt code pos = .ok opcode)
      (short : opcode.isShortBranch = true) (read : i16At code (pos + 1) = .ok distance)
      (inCode : pos + 3 ≤ code.size) :
      Spelled code pos ⟨3, .branch opcode (pos + distance.toInt)⟩
  | wideBranch {opcode : Opcode} {distance : Int32} (first : byteAt code pos = .ok opcode)
      (wide : opcode.isWideBranch = true) (read : i32At code (pos + 1) = .ok distance)
      (inCode : pos + 5 ≤ code.size) :
      Spelled code pos ⟨5, .wideBranch opcode (pos + distance.toInt)⟩
  | tableSwitch {default low high : Int32} {distances : List Int32}
      (first : byteAt code pos = .ok Opcode.tableswitch)
      (readDefault : i32At code (switchOperands pos) = .ok default)
      (readLow : i32At code (switchOperands pos + 4) = .ok low)
      (readHigh : i32At code (switchOperands pos + 8) = .ok high) (ordered : ¬ high < low)
      (count : distances.length = caseCount low high)
      (read : ∀ i (inRange : i < distances.length),
        i32At code (switchOperands pos + 12 + 4 * i) = .ok distances[i])
      (inCode : pos + (1 + switchPadding pos + 12 + 4 * distances.length) ≤ code.size) :
      Spelled code pos ⟨1 + switchPadding pos + 12 + 4 * distances.length,
        .tableSwitch (pos + default.toInt) low high (distances.map fun distance =>
          pos + distance.toInt)⟩
  | lookupSwitch {default pairs : Int32} {cases : List (Int32 × Int32)}
      (first : byteAt code pos = .ok Opcode.lookupswitch)
      (readDefault : i32At code (switchOperands pos) = .ok default)
      (readCount : i32At code (switchOperands pos + 4) = .ok pairs) (positive : ¬ pairs < 0)
      (count : cases.length = pairs.toInt.toNat)
      (readKey : ∀ i (inRange : i < cases.length),
        i32At code (switchOperands pos + 8 + 8 * i) = .ok cases[i].1)
      (readCase : ∀ i (inRange : i < cases.length),
        i32At code (switchOperands pos + 12 + 8 * i) = .ok cases[i].2)
      (inCode : pos + (1 + switchPadding pos + 8 + 8 * cases.length) ≤ code.size) :
      Spelled code pos ⟨1 + switchPadding pos + 8 + 8 * cases.length,
        .lookupSwitch (pos + default.toInt) (cases.map fun (key, distance) =>
          (key, pos + distance.toInt))⟩

theorem targetsAt_eq_ok {code : Array UInt8} {pos operand stride count : Nat} {targets : List Int} :
    Instruction.targetsAt code pos operand stride count = .ok targets ↔
      ∃ distances : List Int32, distances.length = count ∧
        targets = distances.map (fun distance => (pos : Int) + distance.toInt) ∧
        ∀ i (inRange : i < distances.length),
          i32At code (operand + stride * i) = .ok distances[i] := by
  rw [Instruction.targetsAt, mapM_range_eq_ok]
  simp only [bind_eq_ok, pure_eq_ok]
  constructor
  · rintro ⟨rfl, each⟩
    choose distance read same using each
    refine ⟨List.ofFn fun i : Fin targets.length => distance i i.2, by simp, ?_, ?_⟩
    · apply List.ext_getElem
      · simp
      · intro i inRange _
        simp [same i inRange]
    · intro i inRange
      rw [List.getElem_ofFn]
      exact read i _
  · rintro ⟨distances, rfl, rfl, read⟩
    refine ⟨by simp, fun i inRange => ⟨_, read i (by simpa using inRange), by simp⟩⟩

theorem spelled_of_reads {code : Array UInt8} {pos : Nat} {located : Located}
    (reads : Reads code pos located) : Spelled code pos located := by
  obtain ⟨length, instruction⟩ := located
  obtain ⟨measured, decoded⟩ := reads
  obtain ⟨opcode, form, first, found, claimed, inCode⟩ := instructionLength_eq_ok.1 measured
  simp only [Instruction.decode, first, ok_bind] at decoded
  split at decoded
  · rename_i short
    rw [Opcode.form?_shortBranch short] at found
    cases found
    cases claimed
    obtain ⟨distance, read, decoded⟩ := bind_eq_ok.1 decoded
    cases decoded
    exact .branch first short read inCode
  split at decoded
  · rename_i wide
    rw [Opcode.form?_wideBranch wide] at found
    cases found
    cases claimed
    obtain ⟨distance, read, decoded⟩ := bind_eq_ok.1 decoded
    cases decoded
    exact .wideBranch first wide read inCode
  split at decoded
  · rename_i same
    subst same
    rw [Opcode.form?_tableswitch] at found
    cases found
    obtain ⟨default, readDefault, decoded⟩ := bind_eq_ok.1 decoded
    obtain ⟨low, readLow, decoded⟩ := bind_eq_ok.1 decoded
    obtain ⟨high, readHigh, decoded⟩ := bind_eq_ok.1 decoded
    obtain ⟨targets, readTargets, decoded⟩ := bind_eq_ok.1 decoded
    cases decoded
    obtain ⟨distances, count, rfl, read⟩ := targetsAt_eq_ok.1 readTargets
    simp only [claimedLength, readLow, readHigh, ok_bind] at claimed
    split at claimed
    · cases claimed
    · rename_i ordered
      rw [← count] at claimed
      cases claimed
      exact .tableSwitch first readDefault readLow readHigh ordered count read inCode
  split at decoded
  · rename_i same
    subst same
    rw [Opcode.form?_lookupswitch] at found
    cases found
    obtain ⟨default, readDefault, decoded⟩ := bind_eq_ok.1 decoded
    obtain ⟨pairs, readCount, decoded⟩ := bind_eq_ok.1 decoded
    obtain ⟨keys, readKeys, decoded⟩ := bind_eq_ok.1 decoded
    obtain ⟨targets, readTargets, decoded⟩ := bind_eq_ok.1 decoded
    cases decoded
    obtain ⟨distances, count, rfl, read⟩ := targetsAt_eq_ok.1 readTargets
    obtain ⟨keyCount, readKey⟩ := mapM_range_eq_ok.1 readKeys
    simp only [claimedLength, readCount, ok_bind] at claimed
    have zipped : (keys.zip distances).length = pairs.toInt.toNat := by
      rw [List.length_zip, keyCount, count, Nat.min_self]
    have paired : keys.zip (distances.map fun distance => (pos : Int) + distance.toInt) =
        (keys.zip distances).map fun (key, distance) => (key, (pos : Int) + distance.toInt) := by
      rw [List.zip_map_right]
      rfl
    split at claimed
    · cases claimed
    · rename_i positive
      rw [← zipped] at claimed
      cases claimed
      rw [paired]
      refine .lookupSwitch first readDefault readCount positive zipped ?_ ?_ inCode
      · intro i inRange
        rw [List.getElem_zip]
        exact readKey i _
      · intro i inRange
        rw [List.getElem_zip]
        exact read i _
  · cases decoded
    rename_i notShort notWide notTable notLookup
    dsimp only at claimed inCode
    have ordinary : Opcode.namesPlace opcode = false := by
      simp [Opcode.namesPlace, notShort, notWide, Opcode.isSwitch, notTable, notLookup]
    have held := holds_extract inCode (Nat.le_add_right pos length)
    have size : (code.extract pos (pos + length)).toList.length = length := by
      simp only [Array.length_toList, Array.size_extract]
      omega
    have spelled := Spelled.plain first ordinary found (by rw [size]; exact claimed) held
    rwa [size] at spelled

theorem namesPlace_iff {opcode : Opcode} :
    opcode.namesPlace = false ↔ opcode.isShortBranch = false ∧ opcode.isWideBranch = false ∧
      opcode ≠ Opcode.tableswitch ∧ opcode ≠ Opcode.lookupswitch := by
  simp [Opcode.namesPlace, Opcode.isSwitch, and_assoc]

theorem Spelled.length_ok {code : Array UInt8} {pos : Nat} {located : Located}
    (spelled : Spelled code pos located) : instructionLength code pos = .ok located.length := by
  rw [instructionLength_eq_ok]
  cases spelled with
  | plain first ordinary found claimed held =>
      exact ⟨_, _, first, found, claimed, held.le_size⟩
  | branch first short read inCode =>
      exact ⟨_, _, first, Opcode.form?_shortBranch short, rfl, inCode⟩
  | wideBranch first wide read inCode =>
      exact ⟨_, _, first, Opcode.form?_wideBranch wide, rfl, inCode⟩
  | tableSwitch first readDefault readLow readHigh ordered count read inCode =>
      refine ⟨_, _, first, Opcode.form?_tableswitch, ?_, inCode⟩
      simp only [claimedLength, readLow, readHigh, ok_bind, if_neg ordered, count]
  | lookupSwitch first readDefault readCount positive count readKey readCase inCode =>
      refine ⟨_, _, first, Opcode.form?_lookupswitch, ?_, inCode⟩
      simp only [claimedLength, readCount, ok_bind, if_neg positive, count]

theorem reads_of_spelled {code : Array UInt8} {pos : Nat} {located : Located}
    (spelled : Spelled code pos located) : Reads code pos located := by
  refine ⟨spelled.length_ok, ?_⟩
  have notBoth : ∀ opcode : Opcode, opcode.isWideBranch = true → opcode.isShortBranch = false :=
    fun opcode wide => by
      have := Opcode.forall_of_fin (fun opcode =>
        !opcode.isWideBranch || !opcode.isShortBranch) (by decide +kernel) opcode
      simpa [wide] using this
  cases spelled with
  | plain first ordinary found claimed held =>
      obtain ⟨notShort, notWide, notTable, notLookup⟩ := namesPlace_iff.1 ordinary
      simp only [Instruction.decode, first, ok_bind, notShort, notWide, Bool.false_eq_true, if_false,
        if_neg notTable, if_neg notLookup, held.extract rfl]
      rfl
  | branch first short read inCode =>
      simp only [Instruction.decode, first, ok_bind, short, if_true, read]
      rfl
  | wideBranch first wide read inCode =>
      simp only [Instruction.decode, first, ok_bind, notBoth _ wide, Bool.false_eq_true, if_false,
        wide, if_true, read]
      rfl
  | @tableSwitch default low high distances first readDefault readLow readHigh ordered count read
      inCode =>
      have targets : Instruction.targetsAt code pos (switchOperands pos + 12) 4
          (caseCount low high) = .ok (distances.map fun distance => (pos : Int) + distance.toInt) :=
        targetsAt_eq_ok.2 ⟨distances, count, rfl, read⟩
      have notShort : Opcode.isShortBranch Opcode.tableswitch = false := rfl
      have notWide : Opcode.isWideBranch Opcode.tableswitch = false := rfl
      simp only [Instruction.decode, first, ok_bind, notShort, notWide, Bool.false_eq_true,
        if_false, if_true, readDefault, readLow, readHigh, targets]
      rfl
  | @lookupSwitch default pairs cases first readDefault readCount positive count readKey readCase
      inCode =>
      have keys : (List.range pairs.toInt.toNat).mapM (fun i =>
          i32At code (switchOperands pos + 8 + 8 * i)) = .ok (cases.map Prod.fst) := by
        rw [mapM_range_eq_ok]
        refine ⟨by simpa using count, fun i inRange => ?_⟩
        rw [List.getElem_map]
        exact readKey i _
      have targets : Instruction.targetsAt code pos (switchOperands pos + 12) 8
          pairs.toInt.toNat = .ok ((cases.map Prod.snd).map fun distance =>
            (pos : Int) + distance.toInt) := by
        refine targetsAt_eq_ok.2 ⟨_, by simpa using count, rfl, fun i inRange => ?_⟩
        rw [List.getElem_map]
        exact readCase i _
      have notShort : Opcode.isShortBranch Opcode.lookupswitch = false := rfl
      have notWide : Opcode.isWideBranch Opcode.lookupswitch = false := rfl
      have notTable : Opcode.lookupswitch ≠ Opcode.tableswitch := by decide
      simp only [Instruction.decode, first, ok_bind, notShort, notWide, Bool.false_eq_true,
        if_false, if_neg notTable, if_true, readDefault, readCount, keys, targets]
      rw [List.map_map, List.zip_map']
      rfl

theorem reads_iff_spelled {code : Array UInt8} {pos : Nat} {located : Located} :
    Reads code pos located ↔ Spelled code pos located :=
  ⟨spelled_of_reads, reads_of_spelled⟩

theorem Reads.unique {code : Array UInt8} {pos : Nat} {one other : Located}
    (first : Reads code pos one) (second : Reads code pos other) : one = other := by
  obtain ⟨length, instruction⟩ := one
  obtain ⟨length', instruction'⟩ := other
  obtain ⟨measured, decoded⟩ := first
  obtain ⟨measured', decoded'⟩ := second
  dsimp only at measured decoded measured' decoded'
  cases measured.symm.trans measured'
  cases decoded.symm.trans decoded'
  rfl

theorem Reads.length_pos {code : Array UInt8} {pos : Nat} {located : Located}
    (reads : Reads code pos located) : 0 < located.length :=
  Code.length_pos reads.1

theorem Reads.le_size {code : Array UInt8} {pos : Nat} {located : Located}
    (reads : Reads code pos located) : pos + located.length ≤ code.size :=
  length_le reads.1

def Instruction.IsReturn (instruction : Instruction) : Prop :=
  ∃ opcode : Opcode, instruction = .plain [opcode] ∧ opcode.isReturn = true

def Instruction.isReturn : Instruction → Bool
  | .plain [opcode] => Opcode.isReturn opcode
  | _ => false

theorem Instruction.isReturn_iff {instruction : Instruction} :
    instruction.isReturn = true ↔ instruction.IsReturn := by
  constructor
  · intro returns
    unfold Instruction.isReturn at returns
    split at returns
    · exact ⟨_, rfl, returns⟩
    · cases returns
  · rintro ⟨opcode, rfl, returns⟩
    exact returns

theorem Opcode.form?_return {opcode : Opcode} (returns : opcode.isReturn = true) :
    opcode.form? = some (.fixed 1) ∧ opcode.namesPlace = false := by
  have := forall_of_fin (fun opcode => !opcode.isReturn ||
    decide (opcode.form? = some (.fixed 1) ∧ opcode.namesPlace = false)) (by decide +kernel) opcode
  simpa [returns] using this

theorem Reads.isReturn_iff {code : Array UInt8} {pos : Nat} {located : Located} {opcode : Opcode}
    (reads : Reads code pos located) (first : byteAt code pos = .ok opcode) :
    located.instruction.IsReturn ↔ opcode.isReturn = true := by
  constructor
  · intro returns
    obtain ⟨opcode', same, returns⟩ := returns
    cases spelled_of_reads reads with
    | plain first' ordinary found claimed held =>
        cases same
        cases first.symm.trans (byteAt_of_holds held)
        exact returns
    | branch | wideBranch | tableSwitch | lookupSwitch => cases same
  · intro returns
    obtain ⟨form, ordinary⟩ := Opcode.form?_return returns
    have spelled := spelled_of_reads reads
    obtain ⟨notShort, notWide, notTable, notLookup⟩ := namesPlace_iff.1 ordinary
    cases spelled with
    | plain first' _ found claimed held =>
        cases first.symm.trans first'
        cases form.symm.trans found
        obtain ⟨byte, rfl⟩ := List.length_eq_one_iff.1 (Except.ok.inj claimed).symm
        cases first.symm.trans (byteAt_of_holds held)
        exact ⟨opcode, rfl, returns⟩
    | branch first' short =>
        cases first.symm.trans first'
        exact absurd short (by rw [notShort]; exact Bool.false_ne_true)
    | wideBranch first' wide =>
        cases first.symm.trans first'
        exact absurd wide (by rw [notWide]; exact Bool.false_ne_true)
    | tableSwitch first' =>
        cases first.symm.trans first'
        exact absurd rfl notTable
    | lookupSwitch first' =>
        cases first.symm.trans first'
        exact absurd rfl notLookup

def Instruction.shift (distance : Int) : Instruction → Instruction
  | .plain bytes => .plain bytes
  | .branch opcode target => .branch opcode (target + distance)
  | .wideBranch opcode target => .wideBranch opcode (target + distance)
  | .tableSwitch default low high targets =>
    .tableSwitch (default + distance) low high (targets.map (· + distance))
  | .lookupSwitch default cases =>
    .lookupSwitch (default + distance) (cases.map fun (key, target) => (key, target + distance))

def Instruction.isSwitch : Instruction → Bool
  | .tableSwitch .. | .lookupSwitch .. => true
  | .plain _ | .branch .. | .wideBranch .. => false

theorem Reads.isSwitch_eq {code : Array UInt8} {pos : Nat} {located : Located} {opcode : Opcode}
    (reads : Reads code pos located) (first : byteAt code pos = .ok opcode) :
    located.instruction.isSwitch = opcode.isSwitch := by
  have unaligned (ordinary : opcode.form? ≠ some .tableSwitch ∧ opcode.form? ≠ some .lookupSwitch) :
      false = opcode.isSwitch := by
    symm
    rw [Opcode.isSwitch, Bool.or_eq_false_iff, beq_eq_false_iff_ne, beq_eq_false_iff_ne]
    constructor
    · rintro rfl
      exact ordinary.1 Opcode.form?_tableswitch
    · rintro rfl
      exact ordinary.2 Opcode.form?_lookupswitch
  cases spelled_of_reads reads with
  | plain first' ordinary found =>
      cases first.symm.trans first'
      obtain ⟨notTable, notLookup⟩ := Opcode.form?_ordinary ordinary found
      exact unaligned (by simp [found, notTable, notLookup])
  | branch first' short =>
      cases first.symm.trans first'
      exact unaligned (by simp [Opcode.form?_shortBranch short])
  | wideBranch first' wide =>
      cases first.symm.trans first'
      exact unaligned (by simp [Opcode.form?_wideBranch wide])
  | tableSwitch first' | lookupSwitch first' =>
      cases first.symm.trans first'
      rfl

@[simp] theorem Instruction.shift_zero (instruction : Instruction) : instruction.shift 0 = instruction := by
  cases instruction <;> simp [Instruction.shift]

section Elsewhere

variable {code code' : Array UInt8} {pos pos' : Nat} {bytes : List UInt8} {located : Located}

theorem switchPadding_congr (aligned : pos % 4 = pos' % 4) : switchPadding pos = switchPadding pos' := by
  rw [switchPadding, switchPadding, aligned]

theorem switchOperands_eq (pos : Nat) : switchOperands pos = pos + (1 + switchPadding pos) := by
  rw [switchOperands, Nat.add_assoc]

theorem claimedLength_congr {form : Opcode.Form} {length : Nat} (held : Holds code pos bytes)
    (held' : Holds code' pos' bytes) (whole : bytes.length = length)
    (unaligned : form ≠ .tableSwitch ∧ form ≠ .lookupSwitch)
    (claimed : claimedLength code pos form = .ok length) :
    claimedLength code' pos' form = .ok length := by
  cases form with
  | fixed n => exact claimed
  | tableSwitch => exact absurd rfl unaligned.1
  | lookupSwitch => exact absurd rfl unaligned.2
  | wide =>
      have inside : 1 < bytes.length := by
        simp only [claimedLength] at claimed
        repeat' split at claimed
        all_goals cases claimed
        all_goals omega
      have second : code[pos + 1]? = code'[pos' + 1]? := by
        rw [held.getElem? inside, held'.getElem? inside]
      simp only [claimedLength] at claimed ⊢
      rw [← second]
      split
      · simp_all
      · rename_i known
        simp only [known] at claimed
        repeat' split at claimed
        all_goals simp_all

theorem Reads.plain_congr (reads : Reads code pos ⟨bytes.length, .plain bytes⟩)
    (held' : Holds code' pos' bytes) : Reads code' pos' ⟨bytes.length, .plain bytes⟩ := by
  obtain ⟨opcode, form, first, ordinary, found, claimed, held⟩ : ∃ (opcode : Opcode) (form : _),
      byteAt code pos = .ok opcode ∧ opcode.namesPlace = false ∧ opcode.form? = some form ∧
        claimedLength code pos form = .ok bytes.length ∧ Holds code pos bytes := by
    generalize same : bytes.length = length at reads
    cases spelled_of_reads reads with
    | plain first ordinary found claimed held =>
        exact ⟨_, _, first, ordinary, found, claimed, held⟩
  have room : 0 < bytes.length := reads.length_pos
  refine reads_of_spelled (.plain (byteAt_congr held held' room first) ordinary found ?_ held')
  exact claimedLength_congr held held' rfl (Opcode.form?_ordinary ordinary found) claimed

/-- The same bytes elsewhere spell the same instruction, but for the offset that its targets count
from. A switch has to stand at an offset of the same remainder modulo four. -/
theorem Reads.congr (reads : Reads code pos located) (held : Holds code pos bytes)
    (held' : Holds code' pos' bytes) (whole : bytes.length = located.length)
    (aligned : located.instruction.isSwitch = true → pos % 4 = pos' % 4) :
    Reads code' pos' ⟨located.length, located.instruction.shift (pos' - pos)⟩ := by
  have room : 0 < bytes.length := whole ▸ reads.length_pos
  have inCode' : pos' + located.length ≤ code'.size := whole ▸ held'.le_size
  have operand {start : Nat} {n : Int32} (padding : switchPadding pos = switchPadding pos')
      (inside : 1 + switchPadding pos + start + 4 ≤ bytes.length)
      (read : i32At code (switchOperands pos + start) = .ok n) :
      i32At code' (switchOperands pos' + start) = .ok n := by
    rw [switchOperands_eq, Nat.add_assoc] at read ⊢
    rw [← padding]
    exact i32At_congr held held' (by omega) read
  have move (target : Int) : (pos : Int) + target + (pos' - pos) = pos' + target := by omega
  cases spelled_of_reads reads with
  | @plain opcode form bytes' first ordinary found claimed held₁ =>
      have same : bytes' = bytes := held₁.unique held whole.symm
      subst same
      exact reads.plain_congr held'
  | branch first short read inCode =>
      simp only [Instruction.shift, move]
      have read' := i16At_congr held held' (by simp_all) read
      exact reads_of_spelled (.branch (byteAt_congr held held' room first) short read' inCode')
  | wideBranch first wide read inCode =>
      simp only [Instruction.shift, move]
      have read' := i32At_congr held held' (by simp_all) read
      exact reads_of_spelled (.wideBranch (byteAt_congr held held' room first) wide read' inCode')
  | @tableSwitch default low high distances first readDefault readLow readHigh ordered count read
      inCode =>
      dsimp only at whole inCode'
      have padding := switchPadding_congr (aligned rfl)
      simp only [Instruction.shift, List.map_map, Function.comp_def, move, padding]
      rw [padding] at inCode'
      have readDefault : i32At code (switchOperands pos + 0) = .ok default := readDefault
      refine reads_of_spelled (.tableSwitch (byteAt_congr held held' room first)
        (operand padding (by omega) readDefault) (operand padding (by omega) readLow)
        (operand padding (by omega) readHigh) ordered count (fun i inRange => ?_) inCode')
      have := read i inRange
      rw [Nat.add_assoc] at this ⊢
      exact operand padding (by omega) this
  | @lookupSwitch default pairs cases first readDefault readCount positive count readKey readCase
      inCode =>
      dsimp only at whole inCode'
      have padding := switchPadding_congr (aligned rfl)
      simp only [Instruction.shift, List.map_map, Function.comp_def, move, padding]
      rw [padding] at inCode'
      have readDefault : i32At code (switchOperands pos + 0) = .ok default := readDefault
      refine reads_of_spelled (.lookupSwitch (byteAt_congr held held' room first)
        (operand padding (by omega) readDefault) (operand padding (by omega) readCount) positive count
        (fun i inRange => ?_) (fun i inRange => ?_) inCode')
      · have := readKey i inRange
        rw [Nat.add_assoc] at this ⊢
        exact operand padding (by omega) this
      · have := readCase i inRange
        rw [Nat.add_assoc] at this ⊢
        exact operand padding (by omega) this

end Elsewhere

end ClassSplice.Code
