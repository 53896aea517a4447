import ClassSplice.Proofs.Code.Listing

namespace ClassSplice.Code

namespace Instruction

def targets : Instruction → List Int
  | plain _ => []
  | branch _ target | wideBranch _ target => [target]
  | tableSwitch default _ _ targets => default :: targets
  | lookupSwitch default cases => default :: cases.map Prod.snd

theorem targets_eq_nil {instruction : Instruction} (straight : instruction.isBranch = false) :
    instruction.targets = [] := by
  cases instruction with
  | plain => rfl
  | branch | wideBranch | tableSwitch | lookupSwitch => cases straight

def lengthAt (pos : Nat) : Instruction → Nat
  | plain bytes => bytes.length
  | branch .. => 3
  | wideBranch .. => 5
  | tableSwitch _ _ _ targets => 1 + switchPadding pos + 12 + 4 * targets.length
  | lookupSwitch _ cases => 1 + switchPadding pos + 8 + 8 * cases.length

def spell (pos : Nat) : Instruction → List UInt8
  | plain bytes => bytes
  | branch opcode target => opcode :: Layout.word16 (target - pos)
  | wideBranch opcode target => opcode :: Layout.word32 (target - pos)
  | tableSwitch default low high targets =>
    Opcode.tableswitch :: List.replicate (switchPadding pos) 0 ++ Layout.word32 (default - pos) ++
      Layout.word32 low.toInt ++ Layout.word32 high.toInt ++
      targets.flatMap fun target => Layout.word32 (target - pos)
  | lookupSwitch default cases =>
    Opcode.lookupswitch :: List.replicate (switchPadding pos) 0 ++ Layout.word32 (default - pos) ++
      Layout.word32 cases.length ++
      cases.flatMap fun (key, target) => Layout.word32 key.toInt ++ Layout.word32 (target - pos)

def WellFormed : Instruction → Prop
  | plain bytes => ∃ code pos, Reads code pos ⟨bytes.length, plain bytes⟩
  | branch opcode _ => opcode.isShortBranch = true
  | wideBranch opcode _ => opcode.isWideBranch = true
  | tableSwitch _ low high targets => ¬ high < low ∧ targets.length = caseCount low high
  | lookupSwitch _ cases => (cases.length : Int) ≤ 2147483647

def InReach (pos : Nat) : Instruction → Prop
  | branch _ target => Layout.isShort (target - pos) = true
  | instruction => ∀ target ∈ instruction.targets,
      -2147483648 ≤ target - pos ∧ target - pos ≤ 2147483647

@[simp] theorem length_spell (pos : Nat) (instruction : Instruction) :
    (instruction.spell pos).length = instruction.lengthAt pos := by
  cases instruction with
  | plain bytes => rfl
  | branch opcode target => simp [spell, lengthAt]
  | wideBranch opcode target => simp [spell, lengthAt]
  | tableSwitch default low high targets =>
      simp [spell, lengthAt, List.length_flatMap]
      omega
  | lookupSwitch default cases =>
      simp [spell, lengthAt, List.length_flatMap]
      omega

end Instruction

def Listing.Aimed (listing : Listing) : Prop :=
  ∀ entry ∈ listing.entries, ∀ target ∈ entry.2.instruction.targets,
    ∃ pos : Nat, target = pos ∧ listing.IsBoundary pos

theorem Reads.wellFormed {code : Array UInt8} {pos : Nat} {located : Located}
    (reads : Reads code pos located) : located.instruction.WellFormed := by
  cases spelled_of_reads reads with
  | plain first ordinary found claimed held => exact ⟨code, pos, reads⟩
  | branch first short read inCode => exact short
  | wideBranch first wide read inCode => exact wide
  | tableSwitch first readDefault readLow readHigh ordered count read inCode =>
      exact ⟨ordered, by rw [List.length_map, count]⟩
  | @lookupSwitch default pairs cases first readDefault readCount positive count readKey readCase
      inCode =>
      have := pairs.toInt_lt
      simp only [Instruction.WellFormed, List.length_map]
      omega

theorem Reads.length_eq {code : Array UInt8} {pos : Nat} {located : Located}
    (reads : Reads code pos located) : located.length = located.instruction.lengthAt pos := by
  cases spelled_of_reads reads <;> simp [Instruction.lengthAt]

section Spell

variable {code : Array UInt8} {pos : Nat}

theorem holds_switch {opcode : Opcode} {operands : List UInt8}
    (held : Holds code pos (opcode :: List.replicate (switchPadding pos) 0 ++ operands)) :
    byteAt code pos = .ok opcode ∧ Holds code (switchOperands pos) operands := by
  rw [holds_append, holds_cons] at held
  refine ⟨byteAt_of_holds held.1.1, ?_⟩
  have behind := held.2
  rw [List.length_cons, List.length_replicate] at behind
  rwa [switchOperands_eq, Nat.add_comm 1]

theorem i32At_toInt {value : Int32} (held : Holds code pos (Layout.word32 value.toInt)) :
    i32At code pos = .ok value := by
  have low := value.le_toInt
  have high := value.toInt_lt
  obtain ⟨n, read, same⟩ := i32At_word32 held (by omega) (by omega)
  rw [read, Int32.toInt_inj.1 same]

theorem add_displacement (target : Int) : (pos : Int) + (target - pos) = target := by
  omega

theorem reads_spell_tableSwitch {default : Int} {low high : Int32} {targets : List Int}
    (wellFormed : (Instruction.tableSwitch default low high targets).WellFormed)
    (inReach : (Instruction.tableSwitch default low high targets).InReach pos)
    (held : Holds code pos ((Instruction.tableSwitch default low high targets).spell pos)) :
    Reads code pos ⟨(Instruction.tableSwitch default low high targets).lengthAt pos,
      .tableSwitch default low high targets⟩ := by
  have inCode := held.le_size
  rw [Instruction.length_spell] at inCode
  obtain ⟨ordered, count⟩ := wellFormed
  simp only [Instruction.spell, List.append_assoc] at held
  obtain ⟨first, operands⟩ := holds_switch held
  simp only [holds_append, length_word32, Nat.add_assoc] at operands
  obtain ⟨heldDefault, heldLow, heldHigh, heldTargets⟩ := operands
  have reach := inReach default (List.mem_cons_self ..)
  obtain ⟨default', readDefault, sameDefault⟩ := i32At_word32 heldDefault reach.1 reach.2
  have each : ∀ i (inRange : i < targets.length), ∃ n : Int32,
      i32At code (switchOperands pos + 12 + 4 * i) = .ok n ∧ n.toInt = targets[i] - pos := by
    intro i inRange
    have reach := inReach targets[i] (List.mem_cons_of_mem _ (List.getElem_mem inRange))
    exact i32At_word32 (heldTargets.chunk (fun _ => length_word32 _) inRange) reach.1 reach.2
  choose distance read same using each
  have spelled := @Spelled.tableSwitch code pos default' low high
    (List.ofFn fun i : Fin targets.length => distance i i.2) first readDefault (i32At_toInt heldLow)
    (i32At_toInt heldHigh) ordered (by simpa using count)
    (fun i inRange => by
      rw [List.getElem_ofFn]
      exact read i _)
    (by simpa [Instruction.lengthAt] using inCode)
  rw [sameDefault, add_displacement] at spelled
  have back : (List.ofFn fun i : Fin targets.length => distance i i.2).map
      (fun distance => (pos : Int) + distance.toInt) = targets := by
    apply List.ext_getElem
    · simp
    · intro i _ inRange
      rw [List.getElem_map, List.getElem_ofFn, same i inRange, add_displacement]
  rw [back, List.length_ofFn] at spelled
  exact reads_of_spelled spelled

theorem reads_spell_lookupSwitch {default : Int} {cases : List (Int32 × Int)}
    (wellFormed : (Instruction.lookupSwitch default cases).WellFormed)
    (inReach : (Instruction.lookupSwitch default cases).InReach pos)
    (held : Holds code pos ((Instruction.lookupSwitch default cases).spell pos)) :
    Reads code pos ⟨(Instruction.lookupSwitch default cases).lengthAt pos,
      .lookupSwitch default cases⟩ := by
  have inCode := held.le_size
  rw [Instruction.length_spell] at inCode
  simp only [Instruction.spell, List.append_assoc] at held
  obtain ⟨first, operands⟩ := holds_switch held
  simp only [holds_append, length_word32, Nat.add_assoc] at operands
  obtain ⟨heldDefault, heldCount, heldCases⟩ := operands
  have reach := inReach default (List.mem_cons_self ..)
  obtain ⟨default', readDefault, sameDefault⟩ := i32At_word32 heldDefault reach.1 reach.2
  have bound : (cases.length : Int) ≤ 2147483647 := wellFormed
  obtain ⟨pairs, readCount, sameCount⟩ := i32At_word32 heldCount (by omega) bound
  have chunk : ∀ i (inRange : i < cases.length),
      Holds code (switchOperands pos + 8 + 8 * i)
        (Layout.word32 cases[i].1.toInt ++ Layout.word32 (cases[i].2 - pos)) := fun i inRange =>
    heldCases.chunk (fun _ => by simp) inRange
  have each : ∀ i (inRange : i < cases.length), ∃ n : Int32,
      i32At code (switchOperands pos + 12 + 8 * i) = .ok n ∧ n.toInt = cases[i].2 - pos := by
    intro i inRange
    have member := List.mem_map_of_mem (f := Prod.snd) (List.getElem_mem inRange)
    have reach := inReach cases[i].2 (List.mem_cons_of_mem _ member)
    have second := (holds_append.1 (chunk i inRange)).2
    rw [length_word32] at second
    have place : switchOperands pos + 12 + 8 * i = switchOperands pos + 8 + 8 * i + 4 := by omega
    rw [place]
    exact i32At_word32 second reach.1 reach.2
  choose distance read same using each
  have spelled := @Spelled.lookupSwitch code pos default' pairs
    (List.ofFn fun i : Fin cases.length => (cases[i].1, distance i i.2)) first readDefault readCount
    (by rw [Int32.lt_iff_toInt_lt]; simp [sameCount]) (by simp [sameCount])
    (fun i inRange => by
      rw [List.getElem_ofFn]
      exact i32At_toInt (holds_append.1 (chunk i (by simpa using inRange))).1)
    (fun i inRange => by
      rw [List.getElem_ofFn]
      exact read i _)
    (by simpa [Instruction.lengthAt] using inCode)
  rw [sameDefault, add_displacement] at spelled
  have back {placed : Int32 × Int32 → Int32 × Int}
      (places : ∀ pair, placed pair = (pair.1, (pos : Int) + pair.2.toInt)) :
      (List.ofFn fun i : Fin cases.length => (cases[i].1, distance i i.2)).map placed = cases := by
    apply List.ext_getElem
    · simp
    · intro i _ inRange
      rw [List.getElem_map, List.getElem_ofFn, places, same i inRange, add_displacement]
      rfl
  rw [back ?places, List.length_ofFn] at spelled
  case places => exact fun _ => rfl
  exact reads_of_spelled spelled

theorem reads_spell {instruction : Instruction} (wellFormed : instruction.WellFormed)
    (inReach : instruction.InReach pos) (held : Holds code pos (instruction.spell pos)) :
    Reads code pos ⟨instruction.lengthAt pos, instruction⟩ := by
  have inCode := held.le_size
  rw [Instruction.length_spell] at inCode
  cases instruction with
  | plain bytes =>
      obtain ⟨code', pos', reads⟩ := wellFormed
      exact reads.plain_congr held
  | branch opcode target =>
      obtain ⟨first, operand⟩ := holds_cons.1 held
      simp only [Instruction.InReach, Layout.isShort, Bool.and_eq_true, decide_eq_true_eq] at inReach
      obtain ⟨distance, read, same⟩ := i16At_word16 operand inReach.1 inReach.2
      have spelled := Spelled.branch (byteAt_of_holds first) wellFormed read inCode
      rw [same, add_displacement] at spelled
      exact reads_of_spelled spelled
  | wideBranch opcode target =>
      obtain ⟨first, operand⟩ := holds_cons.1 held
      obtain ⟨low, high⟩ := inReach target (List.mem_singleton_self _)
      obtain ⟨distance, read, same⟩ := i32At_word32 operand low high
      have spelled := Spelled.wideBranch (byteAt_of_holds first) wellFormed read inCode
      rw [same, add_displacement] at spelled
      exact reads_of_spelled spelled
  | tableSwitch default low high targets => exact reads_spell_tableSwitch wellFormed inReach held
  | lookupSwitch default cases => exact reads_spell_lookupSwitch wellFormed inReach held

end Spell

end ClassSplice.Code
