import ClassSplice.Proofs.Code.Listing

namespace ClassSplice.Code

section Operands

variable {code : Array UInt8} {pos operand stride count : Nat}

theorem exists_wordAt {width : Nat} (inCode : pos + width ≤ code.size) :
    ∃ word, wordAt code pos width = .ok word := by
  rw [wordAt, bytesAt?, if_pos inCode]
  exact ⟨_, rfl⟩

theorem exists_i16At (inCode : pos + 2 ≤ code.size) : ∃ value, i16At code pos = .ok value := by
  obtain ⟨word, read⟩ := exists_wordAt inCode
  exact ⟨_, by rw [i16At, u16At, read]; rfl⟩

theorem exists_i32At (inCode : pos + 4 ≤ code.size) : ∃ value, i32At code pos = .ok value := by
  obtain ⟨word, read⟩ := exists_wordAt inCode
  exact ⟨_, by rw [i32At, read]; rfl⟩

theorem exists_targetsAt (inCode : ∀ i < count, operand + stride * i + 4 ≤ code.size) :
    ∃ targets, Instruction.targetsAt code pos operand stride count = .ok targets := by
  refine exists_mapM fun i member => ?_
  obtain ⟨distance, read⟩ := exists_i32At (inCode i (List.mem_range.1 member))
  exact ⟨_, by rw [read]; rfl⟩

end Operands

section Lengths

variable {code code' : Array UInt8} {pos pos' length : Nat}

theorem exists_tableSwitch (claimed : claimedLength code pos .tableSwitch = .ok length)
    (inCode : pos + length ≤ code.size) :
    ∃ default low high targets, i32At code (switchOperands pos) = .ok default ∧
      i32At code (switchOperands pos + 4) = .ok low ∧ i32At code (switchOperands pos + 8) = .ok high ∧
      Instruction.targetsAt code pos (switchOperands pos + 12) 4 (caseCount low high) = .ok targets := by
  have operands := switchOperands_eq pos
  obtain ⟨low, readLow, claimed⟩ := bind_eq_ok.1 claimed
  obtain ⟨high, readHigh, claimed⟩ := bind_eq_ok.1 claimed
  split at claimed
  · cases claimed
  · cases claimed
    obtain ⟨default, readDefault⟩ := @exists_i32At code (switchOperands pos) (by omega)
    obtain ⟨targets, readTargets⟩ := @exists_targetsAt code pos (switchOperands pos + 12) 4
      (caseCount low high) fun i _ => by omega
    exact ⟨default, low, high, targets, readDefault, readLow, readHigh, readTargets⟩

theorem exists_lookupSwitch (claimed : claimedLength code pos .lookupSwitch = .ok length)
    (inCode : pos + length ≤ code.size) :
    ∃ default pairs keys targets, i32At code (switchOperands pos) = .ok default ∧
      i32At code (switchOperands pos + 4) = .ok pairs ∧
      (List.range pairs.toInt.toNat).mapM (fun i => i32At code (switchOperands pos + 8 + 8 * i)) =
        .ok keys ∧
      Instruction.targetsAt code pos (switchOperands pos + 12) 8 pairs.toInt.toNat = .ok targets := by
  have operands := switchOperands_eq pos
  obtain ⟨pairs, readCount, claimed⟩ := bind_eq_ok.1 claimed
  split at claimed
  · cases claimed
  · cases claimed
    obtain ⟨default, readDefault⟩ := @exists_i32At code (switchOperands pos) (by omega)
    obtain ⟨keys, readKeys⟩ := exists_mapM fun i (member : i ∈ List.range pairs.toInt.toNat) =>
      @exists_i32At code (switchOperands pos + 8 + 8 * i) (by
        have := List.mem_range.1 member
        omega)
    obtain ⟨targets, readTargets⟩ := @exists_targetsAt code pos (switchOperands pos + 12) 8
      pairs.toInt.toNat fun i _ => by omega
    exact ⟨default, pairs, keys, targets, readDefault, readCount, readKeys, readTargets⟩

theorem exists_reads (measured : instructionLength code pos = .ok length) :
    ∃ instruction, Reads code pos ⟨length, instruction⟩ := by
  suffices decodes : ∃ instruction, Instruction.decode code pos length = .ok instruction by
    obtain ⟨instruction, decoded⟩ := decodes
    exact ⟨instruction, measured, decoded⟩
  obtain ⟨opcode, form, first, found, claimed, inCode⟩ := instructionLength_eq_ok.1 measured
  rw [Instruction.decode, first, ok_bind]
  split
  · rename_i short
    rw [Opcode.form?_shortBranch short] at found
    cases found
    cases claimed
    obtain ⟨distance, read⟩ := @exists_i16At code (pos + 1) (by omega)
    exact ⟨_, by rw [read]; rfl⟩
  split
  · rename_i wide
    rw [Opcode.form?_wideBranch wide] at found
    cases found
    cases claimed
    obtain ⟨distance, read⟩ := @exists_i32At code (pos + 1) (by omega)
    exact ⟨_, by rw [read]; rfl⟩
  split
  · rename_i same
    subst same
    rw [Opcode.form?_tableswitch] at found
    cases found
    obtain ⟨default, low, high, targets, readDefault, readLow, readHigh, readTargets⟩ :=
      exists_tableSwitch claimed inCode
    exact ⟨_, by simp only [readDefault, readLow, readHigh, readTargets, ok_bind]; rfl⟩
  split
  · rename_i same
    subst same
    rw [Opcode.form?_lookupswitch] at found
    cases found
    obtain ⟨default, pairs, keys, targets, readDefault, readCount, readKeys, readTargets⟩ :=
      exists_lookupSwitch claimed inCode
    exact ⟨_, by simp only [readDefault, readCount, readKeys, readTargets, ok_bind]; rfl⟩
  · exact ⟨_, rfl⟩

theorem instructionLength_elsewhere (measured : instructionLength code pos = .ok length)
    (held : Holds code' pos' (code.extract pos (pos + length)).toList)
    (aligned : startsSwitch code pos = true → pos' % 4 = pos % 4) :
    instructionLength code' pos' = .ok length := by
  obtain ⟨instruction, reads⟩ := exists_reads measured
  have inCode := length_le measured
  have own := holds_extract inCode (Nat.le_add_right pos length)
  have whole : (code.extract pos (pos + length)).toList.length = length := by
    rw [Array.length_toList, Array.size_extract]
    omega
  have moved := reads.congr own held whole fun switch =>
    (aligned (reads.startsSwitch_eq.trans switch)).symm
  exact moved.1

theorem decodeOnto_of_tiles {starts : List Nat} {stop : Nat} {fault : Option Error}
    (tiles : Tiles code pos starts stop) (stops : Stops code stop fault) (listing : Listing)
    (here : listing.next = pos) :
    ∃ result, Listing.decodeOnto code listing = verdict result fault ∧
      result.entries.toList.map Prod.fst = listing.entries.toList.map Prod.fst ++ starts := by
  induction tiles generalizing listing with
  | done pos =>
      subst here
      refine ⟨listing, ?_, (List.append_nil _).symm⟩
      rw [Listing.decodeOnto]
      cases stops with
      | ended reached => rw [if_neg (Nat.not_lt_of_ge reached)]; rfl
      | failed inCode refused =>
          rw [if_pos inCode]
          split
          · rename_i refused'
            cases refused.symm.trans refused'
            rfl
          · rename_i measured
            cases refused.symm.trans measured
  | @step pos length stop starts measured rest ih =>
      subst here
      obtain ⟨instruction, reads⟩ := exists_reads measured
      have inCode := reads.le_size
      have room := reads.length_pos
      obtain ⟨result, decoded, offsets⟩ := ih stops (listing.push ⟨length, instruction⟩) rfl
      refine ⟨result, ?_, by simpa [OffsetTable.push] using offsets⟩
      rw [Listing.decodeOnto, if_pos (by dsimp only at inCode room; omega)]
      split
      · rename_i refused
        cases measured.symm.trans refused
      · rename_i measured'
        cases measured.symm.trans measured'
        rw [reads.2]
        exact decoded

end Lengths

end ClassSplice.Code
