import ClassSplice.Proofs.Assembler.Piece

namespace ClassSplice.Assembler

open Code (Buffer Instruction Opcode slotWidth)
open Code.Layout (word16 word32)

variable {start state : Assembly} {pool : Pool} {bytes added : List UInt8} {fixups : List Fixup}
  {growth : Int} {opcode : Opcode}

def blankSlot (isWide : Bool) : List UInt8 :=
  if isWide then word32 0 else word16 0

theorem word32_toInt (value : Int32) : word32 value.toInt = Binary.Writer.i32 value := by
  have same : (value.toInt % 4294967296).toNat = value.toUInt32.toNat := by
    show (value.toBitVec.toInt % _).toNat = value.toBitVec.toNat
    have bounded := value.toBitVec.isLt
    rw [BitVec.toInt_eq_toNat_bmod, Int.bmod_def]
    omega
  rw [word32, same]
  rfl

theorem word32_natCast (n : Nat) : word32 n = Binary.Writer.i32 (Int32.ofNat n) := by
  have same : ((n : Int) % 4294967296).toNat = (Int32.ofNat n).toUInt32.toNat := by
    show _ = (BitVec.ofNat 32 n).toNat
    rw [BitVec.toNat_ofNat]
    omega
  rw [word32, same]
  rfl

theorem length_i32 (value : Int32) : (Binary.Writer.i32 value).length = 4 :=
  Binary.BigEndian.length_bytes ..

theorem leads_emit_adds {change : Buffer → Buffer} (more : List UInt8)
    (grows : ∀ buffer : Buffer, Buffer.Grows more 0 buffer (change buffer)) :
    Leads (fun state _ => Adds bytes fixups growth start state) (emit change)
      fun _ state _ => Adds (bytes ++ more) fixups growth start state := by
  constructor
  intro state pool value state' pool' yields adds
  obtain ⟨rfl, _⟩ := yields_modify.1 yields
  exact adds.more (grows _)

theorem label_expectDepth (state : Assembly) (label name : String) (depth : Int) :
    (state.setLabel label ((state.label label).met depth)).label name =
      if name = label then (state.label name).met depth else state.label name := by
  rw [label_setLabel]
  by_cases same : name = label
  · rw [if_pos same.symm, if_pos same, same]
  · rw [if_neg (Ne.symm same), if_neg same]

theorem Notes.aims {depth : Int} {state' : Assembly} {fixup : Fixup}
    (notes : Notes fixups depth start state)
    (label : ∀ name, state'.label name =
      if name = fixup.label then (state.label name).met depth else state.label name)
    (added : state'.fixups = state.fixups.push fixup) (handlers : state'.handlers = state.handlers) :
    Notes (fixups ++ [fixup]) depth start state' where
  label name := by
    rw [label, notes.label]
    simp only [List.map_append, List.map_cons, List.map_nil, List.mem_append, List.mem_singleton]
    by_cases same : name = fixup.label
    · by_cases earlier : name ∈ fixups.map Fixup.label
      · rw [if_pos same, if_pos earlier, if_pos (.inl earlier), Label.met_met]
      · rw [if_pos same, if_neg earlier, if_pos (.inr same)]
    · simp only [same, or_false, if_false]
  fixups := by rw [added, Array.toList_push, notes.fixups, List.append_assoc]
  handlers := handlers.trans notes.handlers

theorem leads_target (label : String) (origin : Nat) (isWide : Bool) :
    Leads (fun state _ => Adds bytes fixups growth start state)
      (do
        addDisplacement label origin isWide
        reachLabel label)
      fun _ state _ => ∃ line, Adds (bytes ++ blankSlot isWide)
        (fixups ++ [⟨line, label, origin, start.buffer.pc + bytes.length, isWide⟩]) growth start state := by
  constructor
  intro state pool value state' pool' yields adds
  obtain ⟨_, middle, _, added, yields⟩ := yields_bind.1 yields
  obtain ⟨same, rfl⟩ := yields_modify.1 added
  obtain ⟨_, _, _, got, yields⟩ := yields_bind.1 yields
  obtain ⟨rfl, rfl, rfl⟩ := yields_get.1 got
  obtain ⟨rfl, rfl⟩ := yields_expectDepth yields
  have grown : Buffer.Grows (blankSlot isWide) 0 state.buffer middle.buffer := by
    rw [← same]
    cases isWide with
    | false => exact (Buffer.Grows.refl _).addBytes _
    | true => exact (Buffer.Grows.refl _).addBytes _
  have grows := adds.grows.trans grown
  rw [add_zero] at grows
  refine ⟨state.line, grows, adds.notes.aims (fun name => ?_) ?_ ?_, ?_⟩
  · rw [label_expectDepth, grows.depth]
    subst same
    rfl
  · rw [← adds.grows.pc, ← same]
    rfl
  · rw [← same]
    rfl
  · rw [← adds.reachable, ← same]
    rfl

theorem Adds.emits {clause : Clause} {piece : Piece} {buffer : Buffer}
    (adds : Adds (piece.instruction.spell piece.pos) piece.fixups growth start state)
    (pos : piece.pos = start.buffer.pc)
    (after : Buffer.Grows [] (-piece.instruction.returnWidth) state.buffer buffer)
    (blank : piece.Blank)
    (wellFormed : buffer.pc ≤ 2147483647 → piece.instruction.WellFormed)
    (measured : ∀ later, piece.instruction.stackEffect? later = some growth)
    (said : ∀ place, clause.Says place (piece.filled place))
    (names : ∀ bytes, piece.instruction ≠ .plain bytes) :
    Emits clause piece growth start { state with buffer } pool where
  pos := pos
  grows := by simpa [sub_eq_add_neg] using adds.grows.trans after
  reaches low := by
    have high := adds.grows.high low
    rw [adds.grows.depth] at high
    have := after.maxStack
    show _ ≤ (buffer.maxStack : Int)
    omega
  notes := ⟨adds.notes.label, adds.notes.fixups, adds.notes.handlers⟩
  blank := blank
  wellFormed := wellFormed
  measured later _ _ := measured later
  said := said
  fits _ bytes _ _ same := absurd same (names bytes)

theorem Adds.emits_branch {label : String} {rest : List Token} {line : Nat} {buffer : Buffer}
    (split : start.operands = .word label :: rest)
    (branches : opcode.isShortBranch = true ∨ opcode.isWideBranch = true)
    (adds : Adds ([opcode] ++ blankSlot opcode.isWideBranch)
      [⟨line, label, start.buffer.pc, start.buffer.pc + 1, opcode.isWideBranch⟩] opcode.growth start state)
    (after : Buffer.Grows [] (-(if opcode = Opcode.jsr ∨ opcode = Opcode.jsrW then 1 else 0))
      state.buffer buffer) :
    Issues (Clause.ofBranch opcode start.operands) opcode start { state with buffer } pool := by
  rw [split, Clause.ofBranch]
  cases wide : opcode.isWideBranch with
  | false =>
      rw [wide] at adds branches
      have short := branches.resolve_right Bool.false_ne_true
      refine ⟨⟨start.buffer.pc, .branch opcode start.buffer.pc, _⟩, opcode.growth,
        Adds.emits (by simpa [Instruction.spell, blankSlot] using adds) rfl after
          ⟨by simp [Instruction.targets], rfl, by simp [Instruction.hasWideSlots]⟩
          (fun _ => short) (fun _ => rfl) (fun place => .branch short)
          (fun _ same => by cases same), adds.reachable, rfl, rfl⟩
  | true =>
      rw [wide] at adds
      refine ⟨⟨start.buffer.pc, .wideBranch opcode start.buffer.pc, _⟩, opcode.growth,
        Adds.emits (by simpa [Instruction.spell, blankSlot] using adds) rfl after
          ⟨by simp [Instruction.targets], rfl, by simp [Instruction.hasWideSlots]⟩
          (fun _ => wide) (fun _ => rfl) (fun place => .wideBranch wide)
          (fun _ same => by cases same), adds.reachable, rfl, rfl⟩

theorem leads_branch (branches : opcode.isShortBranch = true ∨ opcode.isWideBranch = true) :
    Leads (fun state _ => start = state) (branch opcode)
      fun _ => Issues (Clause.ofBranch opcode start.operands) opcode start := by
  constructor
  rintro state pool value state' pool' yields rfl
  unfold branch at yields
  obtain ⟨label, _, _, read, yields⟩ := yields_bind.1 yields
  obtain ⟨rest, split, rfl⟩ := yields_nextWord read
  obtain ⟨_, _, _, got, yields⟩ := yields_bind.1 yields
  obtain ⟨rfl, rfl, rfl⟩ := yields_get.1 got
  obtain ⟨_, _, _, opened, yields⟩ := yields_bind.1 yields
  obtain ⟨rfl, rfl⟩ := yields_modify.1 opened
  obtain ⟨_, _, _, added, yields⟩ := yields_bind.1 yields
  obtain ⟨_, _, _, reached, yields⟩ := yields_bind.1 yields
  have ready : Ready start { start with operands := rest } := ⟨rest, rfl⟩
  have adds := ready.adds (Buffer.grows_addOpcode start.buffer opcode)
  obtain ⟨line, adds⟩ :=
    (leads_target _ _ _).leads (yields_bind.2 ⟨_, _, _, added, reached⟩) adds
  split at yields
  · rename_i calls
    obtain ⟨rfl, rfl⟩ := yields_modify.1 yields
    refine adds.emits_branch split branches ?_
    rw [if_pos calls]
    exact (Buffer.Grows.refl _).grow (-1)
  · rename_i jumps
    obtain ⟨_, rfl, rfl⟩ := yields_pure.1 yields
    refine adds.emits_branch split branches ?_
    rw [if_neg jumps]
    exact Buffer.Grows.refl _

theorem leads_targets {α : Type} {step : α → AssemblyM PUnit} (chunk : α → List UInt8)
    (name : α → String) {origin lead : Nat} (width : ∀ item, (chunk item).length = lead)
    (each : ∀ item bytes fixups, Leads (fun state _ => Adds bytes fixups growth start state)
      (step item) fun _ state _ => ∃ line, Adds (bytes ++ (chunk item ++ word32 0))
        (fixups ++ [⟨line, name item, origin, start.buffer.pc + bytes.length + lead, true⟩]) growth
        start state) (items : List α) :
    Leads (fun state _ => Adds bytes fixups growth start state) (items.forM step)
      fun _ state _ => ∃ more : List Fixup,
        Adds (bytes ++ items.flatMap fun item => chunk item ++ word32 0) (fixups ++ more) growth start
          state ∧
        more.map Fixup.label = items.map name ∧
        more.map Fixup.pos = (List.range items.length).map (fun i =>
          start.buffer.pc + bytes.length + lead + (lead + 4) * i) ∧
        ∀ fixup ∈ more, fixup.origin = origin ∧ fixup.isWide = true := by
  induction items generalizing bytes fixups with
  | nil =>
      refine (Leads.pure _).imp (fun _ _ known => known) fun _ state _ done => ⟨[], ?_, rfl, rfl, nofun⟩
      simpa using done
  | cons item items ih =>
      constructor
      intro state pool value state' pool' yields adds
      obtain ⟨_, middle, _, done, further⟩ := yields_bind.1 yields
      obtain ⟨line, adds⟩ := (each item _ _).leads done adds
      obtain ⟨more, adds, named, places, alike⟩ := ih.leads further adds
      refine ⟨_ :: more, by simpa using adds, by rw [List.map_cons, named, List.map_cons], ?_, ?_⟩
      · rw [List.map_cons, places, List.length_cons, List.range_succ_eq_map, List.map_cons,
          List.map_map]
        congr 1
        apply List.map_congr_left
        intro i _
        simp only [Function.comp_apply, List.length_append, width, Code.length_word32, Nat.mul_succ]
        omega
      · exact List.forall_mem_cons.2 ⟨⟨rfl, rfl⟩, alike⟩

def switchStart (opcode : Opcode) (pos : Nat) : List UInt8 :=
  opcode :: List.replicate (Code.switchPadding pos) 0 ++ word32 0

theorem length_switchStart (opcode : Opcode) (pos : Nat) :
    pos + (switchStart opcode pos).length = Code.switchOperands pos + 4 := by
  simp only [switchStart, List.length_append, List.length_cons, List.length_replicate,
    Code.length_word32, Code.switchOperands]
  omega

theorem leads_switchHeader (opcode : Opcode) (default : String) :
    Leads (fun state _ => Ready start state) (switchHeader opcode default) fun origin state _ =>
      origin = start.buffer.pc ∧ ∃ line, Adds (switchStart opcode start.buffer.pc)
        [⟨line, default, start.buffer.pc, Code.switchOperands start.buffer.pc, true⟩] opcode.growth
        start state := by
  constructor
  intro state pool value state' pool' yields ready
  unfold switchHeader at yields
  obtain ⟨_, _, _, got, yields⟩ := yields_bind.1 yields
  obtain ⟨rfl, rfl, rfl⟩ := yields_get.1 got
  obtain ⟨_, middle, _, opened, yields⟩ := yields_bind.1 yields
  obtain ⟨rfl, rfl⟩ := yields_modify.1 opened
  obtain ⟨_, _, _, done, yields⟩ := yields_bind.1 yields
  obtain ⟨rfl, rfl, rfl⟩ := yields_pure.1 yields
  have here : state.buffer.pc = start.buffer.pc := by
    obtain ⟨_, rfl⟩ := ready
    rfl
  have adds := ready.adds ((Buffer.grows_addOpcode state.buffer opcode).addBytes
    (List.replicate (Code.switchPadding state.buffer.pc) 0))
  obtain ⟨line, adds⟩ := (leads_target _ _ _).leads done adds
  rw [here] at adds ⊢
  have operands : start.buffer.pc + ([opcode] ++ List.replicate (Code.switchPadding start.buffer.pc)
      (0 : UInt8)).length = Code.switchOperands start.buffer.pc := by
    simp only [List.length_append, List.length_singleton, List.length_replicate, Code.switchOperands]
    omega
  rw [operands] at adds
  exact ⟨rfl, line, adds⟩

theorem leads_tableSwitch :
    Leads (fun state _ => start = state) tableSwitch
      fun _ => Issues (Clause.ofTableSwitch start.operands) Opcode.tableswitch start := by
  constructor
  rintro state pool value state' pool' yields rfl
  unfold tableSwitch at yields
  obtain ⟨low, _, _, read, yields⟩ := yields_bind.1 yields
  obtain ⟨word, n, _, opens, integer, rfl, ⟨least, _⟩, rfl⟩ := yields_nextInteger read
  obtain ⟨labels, _, _, read, yields⟩ := yields_bind.1 yields
  obtain ⟨_, listed, rfl⟩ := yields_useOperands read
  obtain ⟨default, _, _, read, yields⟩ := yields_bind.1 yields
  obtain ⟨_, rest, closes, rfl⟩ := yields_nextDefault read
  have clause : Clause.ofTableSwitch start.operands = .tableSwitch n.toInt labels default := by
    dsimp only at listed closes
    rw [opens, Clause.ofTableSwitch, integer, listed, closes]
  rw [clause]
  have ready : Ready start { start with operands := rest } := ⟨rest, rfl⟩
  dsimp only at yields
  split at yields
  · exact absurd yields not_yields_fail
  · rename_i nonempty
    split at yields
    · exact absurd yields not_yields_fail
    · rename_i bounded
      obtain ⟨_, _, _, done, yields⟩ := yields_bind.1 yields
      obtain ⟨rfl, line, adds⟩ := (leads_switchHeader _ _).leads done ready
      obtain ⟨_, _, _, done, yields⟩ := yields_bind.1 yields
      have adds := (leads_emit_adds (Binary.Writer.i32 (Int32.ofInt n.toInt) ++
        Binary.Writer.i32 (Int32.ofInt (n.toInt + labels.length - 1))) fun buffer =>
          ((Buffer.Grows.refl buffer).addBytes _).addBytes _).leads done adds
      obtain ⟨more, adds, named, places, alike⟩ := (leads_targets (fun _ => []) id (fun _ => rfl)
        (fun label _ _ => leads_target label _ true) labels).leads yields adds
      have count : 0 < labels.length := by
        rw [List.length_pos_iff]
        simpa using nonempty
      have inRange : Int32.minValue.toInt = -2147483648 ∧ Int32.maxValue.toInt = 2147483647 := by
        decide
      have high : (Int32.ofInt (n.toInt + labels.length - 1)).toInt = n.toInt + labels.length - 1 :=
        Int32.toInt_ofInt_of_le (by omega) (by omega)
      have low : (Int32.ofInt n.toInt).toInt = n.toInt := Int32.toInt_ofInt_of_le (by omega) (by omega)
      refine ⟨⟨start.buffer.pc, .tableSwitch start.buffer.pc (Int32.ofInt n.toInt)
        (Int32.ofInt (n.toInt + labels.length - 1)) (labels.map fun _ => (start.buffer.pc : Int)),
        ⟨line, default, start.buffer.pc, Code.switchOperands start.buffer.pc, true⟩ :: more⟩,
        Opcode.growth Opcode.tableswitch,
        Adds.emits ?_ rfl (Buffer.Grows.refl _) ⟨?_, ?_, ?_⟩ (fun _ => ⟨?_, ?_⟩) (fun _ => rfl)
          (fun place => ?_)
          (fun _ same => by cases same), adds.reachable, rfl, rfl⟩
      · simp only [switchStart, List.nil_append, List.append_assoc, List.cons_append] at adds
        simpa only [Instruction.spell, List.flatMap_map, Int.sub_self, word32_toInt,
          List.append_assoc, List.cons_append] using adds
      · simp [Instruction.targets]
      · have behind := length_switchStart Opcode.tableswitch start.buffer.pc
        simp only [List.map_cons, places, Instruction.slots, List.length_map, List.length_nil,
          List.length_append, length_i32, List.cons.injEq, true_and]
        apply List.map_congr_left
        intro i _
        omega
      · exact List.forall_mem_cons.2 ⟨⟨rfl, rfl⟩, alike⟩
      · rw [Int32.lt_iff_toInt_lt, high, low]
        omega
      · rw [List.length_map, Code.caseCount, high, low]
        omega
      · simp only [Piece.filled, Piece.labels, List.map_cons, named, List.map_id, Instruction.retarget,
          List.headD_cons, List.tail_cons]
        exact .tableSwitch low (by rw [high, low]; omega)

theorem pairwise_of_duplicateKey? {cases : List (Int32 × String)}
    (sorted : cases.Pairwise fun left right => left.1 ≤ right.1) (distinct : duplicateKey? cases = none) :
    (cases.map Prod.fst).Pairwise (· < ·) := by
  induction cases with
  | nil => exact .nil
  | cons first cases ih =>
      obtain ⟨least, sorted⟩ := List.pairwise_cons.1 sorted
      cases cases with
      | nil => exact List.pairwise_singleton _ _
      | cons second cases =>
          rw [duplicateKey?] at distinct
          split at distinct
          · cases distinct
          · rename_i apart
            have later := ih sorted distinct
            have less : first.1 < second.1 :=
              Int32.lt_iff_le_and_ne.2 ⟨least second List.mem_cons_self, apart⟩
            refine List.pairwise_cons.2 ⟨?_, later⟩
            intro key member
            rcases List.mem_cons.1 member with rfl | member
            · exact less
            · exact Int32.lt_trans less ((List.pairwise_cons.1 later).1 key member)

theorem leads_lookupSwitch :
    Leads (fun state _ => start = state) lookupSwitch
      fun _ => Issues (Clause.ofLookupSwitch start.operands) Opcode.lookupswitch start := by
  constructor
  rintro state pool value state' pool' yields rfl
  unfold lookupSwitch at yields
  obtain ⟨written, _, _, read, yields⟩ := yields_bind.1 yields
  obtain ⟨_, listed, rfl⟩ := yields_useOperands read
  obtain ⟨default, _, _, read, yields⟩ := yields_bind.1 yields
  obtain ⟨_, rest, closes, rfl⟩ := yields_nextDefault read
  have clause : Clause.ofLookupSwitch start.operands = .lookupSwitch written default := by
    dsimp only at closes
    rw [Clause.ofLookupSwitch, listed, closes]
  rw [clause]
  have ready : Ready start { start with operands := rest } := ⟨rest, rfl⟩
  have permuted : (written.mergeSort fun left right => left.1 ≤ right.1).Perm written :=
    List.mergeSort_perm ..
  have sorted : (written.mergeSort fun left right => left.1 ≤ right.1).Pairwise
      fun left right => left.1 ≤ right.1 := by
    refine (List.pairwise_mergeSort ?_ ?_ written).imp fun less => of_decide_eq_true less
    · intro one other third first second
      simp only [decide_eq_true_eq] at first second ⊢
      exact Int32.le_trans first second
    · intro one other
      simpa using Int32.le_total one.1 other.1
  dsimp only at yields
  generalize written.mergeSort (fun left right => left.1 ≤ right.1) = cases at yields permuted sorted
  split at yields
  · exact absurd yields not_yields_fail
  · rename_i distinct
    have increasing := pairwise_of_duplicateKey? sorted distinct
    obtain ⟨_, _, _, done, yields⟩ := yields_bind.1 yields
    obtain ⟨rfl, line, adds⟩ := (leads_switchHeader _ _).leads done ready
    obtain ⟨_, _, _, done, yields⟩ := yields_bind.1 yields
    have adds := (leads_emit_adds (Binary.Writer.i32 (Int32.ofNat cases.length))
      fun buffer => (Buffer.Grows.refl buffer).addBytes _).leads done adds
    have chunk (item : Int32 × String) (bytes : List UInt8) (fixups : List Fixup) :
        Leads (fun state _ => Adds bytes fixups (Opcode.growth Opcode.lookupswitch) start state) (do
          emit (·.addI32 item.1)
          switchTarget start.buffer.pc item.2) fun _ state _ => ∃ line,
            Adds (bytes ++ (Binary.Writer.i32 item.1 ++ word32 0)) (fixups ++
              [⟨line, item.2, start.buffer.pc, start.buffer.pc + bytes.length + 4, true⟩])
              (Opcode.growth Opcode.lookupswitch) start state := by
      apply Leads.bind (leads_emit_adds (Binary.Writer.i32 item.1) fun buffer =>
        (Buffer.Grows.refl buffer).addBytes _)
      intro _
      refine (leads_target item.2 _ true).imp (fun _ _ known => known) fun _ _ _ done => ?_
      obtain ⟨line, adds⟩ := done
      rw [List.length_append, length_i32, ← Nat.add_assoc] at adds
      exact ⟨line, by rwa [← List.append_assoc]⟩
    obtain ⟨more, adds, named, places, alike⟩ := (leads_targets _ Prod.snd
      (fun item => length_i32 item.1) chunk cases).leads yields adds
    refine ⟨⟨start.buffer.pc, .lookupSwitch start.buffer.pc
      (cases.map fun item => (item.1, (start.buffer.pc : Int))),
      ⟨line, default, start.buffer.pc, Code.switchOperands start.buffer.pc, true⟩ :: more⟩,
      Opcode.growth Opcode.lookupswitch, Adds.emits ?_ rfl (Buffer.Grows.refl _) ⟨?_, ?_, ?_⟩
        (fun small => ?_) (fun _ => rfl) (fun place => ?_) (fun _ same => by cases same),
        adds.reachable, rfl, rfl⟩
    · simp only [switchStart, List.nil_append, List.append_assoc, List.cons_append] at adds
      simpa only [Instruction.spell, List.flatMap_map, Int.sub_self, word32_toInt, word32_natCast,
        List.length_map, List.append_assoc, List.cons_append] using adds
    · intro target member
      simp only [Instruction.targets, List.map_map, List.mem_cons, List.mem_map] at member
      rcases member with rfl | ⟨_, _, rfl⟩
      · rfl
      · rfl
    · have behind := length_switchStart Opcode.lookupswitch start.buffer.pc
      simp only [List.map_cons, places, Instruction.slots, List.length_map, List.length_append,
        length_i32, List.cons.injEq, true_and]
      apply List.map_congr_left
      intro i _
      omega
    · exact List.forall_mem_cons.2 ⟨⟨rfl, rfl⟩, alike⟩
    · rw [adds.grows.pc] at small
      simp only [List.length_append, List.length_flatMap, length_i32, Code.length_word32,
        List.map_const', List.sum_replicate, smul_eq_mul] at small
      simp only [Instruction.WellFormed, List.length_map]
      omega
    · simp only [Piece.filled, Piece.labels, List.map_cons, named, List.map_map, Instruction.retarget,
        List.headD_cons, List.tail_cons, List.zip_map']
      refine .lookupSwitch ?_ (permuted.map _)
      rw [List.map_map]
      exact increasing

end ClassSplice.Assembler
