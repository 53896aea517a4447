import ClassSplice.Proofs.Assembler.Trace

namespace ClassSplice.Assembler

open Code (Buffer Handler Opcode)

structure Within (low high : Nat) (handler : Handler) : Prop where
  start : low ≤ handler.start.toNat
  stop : handler.stop.toNat ≤ high
  target : low ≤ handler.target.toNat ∧ handler.target.toNat ≤ high

/-- A buffer with code and handlers behind those of another. -/
structure Grown (before after : Buffer) : Prop where
  bytes : before.bytes.toList <+: after.bytes.toList
  handlers : ∃ added, after.handlers = before.handlers ++ added ∧
    ∀ handler ∈ added, Within before.pc after.pc handler

structure Behind (before : Buffer) (state : Assembly) : Prop where
  grown : Grown before state.buffer
  labels : ∀ (name : String) (pos : Nat), (state.label name).pos = some pos →
    before.pc ≤ pos ∧ pos ≤ state.buffer.pc
  fixups : ∀ fixup ∈ state.fixups, before.pc ≤ fixup.pos

variable {before : Buffer} {state : Assembly}

theorem Within.mono {low high high' : Nat} {handler : Handler} (within : Within low high handler)
    (ordered : high ≤ high') : Within low high' handler :=
  ⟨within.start, Nat.le_trans within.stop ordered, within.target.1,
    Nat.le_trans within.target.2 ordered⟩

theorem Grown.pc_le {after : Buffer} (grown : Grown before after) : before.pc ≤ after.pc := by
  simpa [Buffer.pc] using grown.bytes.length_le

theorem Grown.extends {after further : Buffer} (grown : Grown before after)
    (extended : after.Extends further) : Grown before further := by
  obtain ⟨added, same, within⟩ := grown.handlers
  refine ⟨grown.bytes.trans extended.bytes, added, by rw [extended.handlers, same], ?_⟩
  intro handler member
  exact (within handler member).mono extended.pc_le

theorem Behind.line (state : Assembly) (line : Nat) (behind : Behind before state) :
    Behind before { state with line } :=
  ⟨behind.grown, behind.labels, behind.fixups⟩

section Statements

variable {start : Assembly} {last pool : Pool} {name : String} {names : List String}
  {source : Statement} {sources : List Statement} {pieces : List Piece} {groups : List (List Piece)}

theorem Behind.places (behind : Behind before start) (places : Places name start state) :
    Behind before state := by
  have here : state.buffer.pc = start.buffer.pc := congrArg Array.size places.bytes
  refine ⟨behind.grown.extends ⟨by rw [places.bytes], places.table⟩, ?_, ?_⟩
  · intro other pos placed
    rw [places.label] at placed
    rw [here]
    split at placed
    · cases placed
      exact ⟨behind.grown.pc_le, Nat.le_refl _⟩
    · exact behind.labels other pos placed
  · rw [places.fixups]
    exact behind.fixups

theorem Behind.lands (behind : Behind before start) (lands : Lands names start state) :
    Behind before state := by
  induction lands with
  | nil => exact behind
  | cons places _ ih => exact ih (behind.places places)

theorem Behind.acts {clause : Clause} (behind : Behind before start)
    (acts : Acts start pool clause pieces state) : Behind before state := by
  have advances := acts.advances
  have further := advances.pc
  refine ⟨behind.grown.extends ⟨⟨_, advances.bytes.symm⟩, advances.table⟩, ?_, ?_⟩
  · intro name pos placed
    rw [acts.pos] at placed
    obtain ⟨low, high⟩ := behind.labels name pos placed
    exact ⟨low, Nat.le_trans high further⟩
  · intro fixup member
    rw [← Array.mem_toList_iff, advances.fixups, List.mem_append] at member
    rcases member with old | new
    · exact behind.fixups fixup (Array.mem_toList_iff.1 old)
    · obtain ⟨piece, among, within⟩ := List.mem_flatMap.1 new
      obtain ⟨here, blank, _⟩ := acts.piece among
      have slot : fixup.pos ∈ piece.instruction.slots piece.pos :=
        blank.places ▸ List.mem_map_of_mem within
      have := (Code.Instruction.slot_bounds slot).1
      have := behind.grown.pc_le
      omega

theorem Behind.treats (behind : Behind before start) (treats : Treats start pool source pieces state) :
    Behind before state := by
  obtain ⟨lands, acts⟩ := treats
  exact ((behind.line start source.line).lands lands).acts acts

theorem Behind.trace (behind : Behind before start) (trace : Trace last start sources groups state) :
    Behind before state := by
  induction trace with
  | done => exact behind
  | step treats _ _ ih => exact ih (behind.treats treats)

end Statements

theorem Behind.overwrite {pos : Nat} {bytes : List UInt8} (behind : Behind before state)
    (bounded : before.pc ≤ pos) :
    Behind before { state with buffer := state.buffer.overwrite pos bytes } := by
  have same : (state.buffer.overwrite pos bytes).pc = state.buffer.pc := Buffer.pc_overwrite pos bytes
  refine ⟨⟨?_, ?_⟩, ?_, behind.fixups⟩
  · exact Buffer.prefix_overwrite bytes behind.grown.bytes bounded
  · rw [Buffer.handlers_overwrite, same]
    exact behind.grown.handlers
  · rw [same]
    exact behind.labels

theorem preserves_placedAt (name : String) : Preserves (Behind before) (placedAt name) := by
  unfold placedAt
  apply Preserves.bind Preserves.get
  intro state
  split
  · exact Preserves.pure _
  · exact Preserves.fail

theorem preserves_patch {fixup : Fixup} (bounded : before.pc ≤ fixup.pos) :
    Preserves (Behind before) (patch fixup) := by
  unfold patch
  refine Preserves.bind (Preserves.modify fun state => Behind.line state _) ?_
  intro _
  apply Preserves.bind (preserves_placedAt _)
  intro target
  have overwrites (bytes : List UInt8) :
      Preserves (Behind before) (emit (·.overwrite fixup.pos bytes)) :=
    Preserves.modify fun state behind => behind.overwrite bounded
  dsimp only
  split
  · exact overwrites _
  · split
    · exact overwrites _
    · exact Preserves.failSyntax

theorem preserves_addHandler (handler : PendingHandler) :
    Preserves (Behind before) (addHandler handler) := by
  unfold addHandler
  refine Preserves.bind (Preserves.modify fun state => Behind.line state _) ?_
  intro _
  constructor
  intro state pool value state' pool' yields behind
  obtain ⟨start, _, _, placed, yields⟩ := yields_bind.1 yields
  obtain ⟨atStart, rfl, rfl⟩ := yields_placedAt placed
  obtain ⟨stop, _, _, placed, yields⟩ := yields_bind.1 yields
  obtain ⟨atStop, rfl, rfl⟩ := yields_placedAt placed
  obtain ⟨target, _, _, placed, yields⟩ := yields_bind.1 yields
  obtain ⟨atTarget, rfl, rfl⟩ := yields_placedAt placed
  obtain ⟨buffer, added, rfl, _⟩ := yields_emitChecked.1 yields
  simp only [Buffer.addHandler, Code.HandlerTable.add, bind_eq_ok, pure_eq_ok,
    Handler.make_eq_ok] at added
  obtain ⟨table, ⟨entry, ⟨spans, _⟩, rfl⟩, rfl⟩ := added
  have within : Within before.pc state.buffer.pc entry :=
    ⟨spans.start ▸ (behind.labels _ _ atStart).1, spans.stop ▸ (behind.labels _ _ atStop).2,
      spans.target ▸ behind.labels _ _ atTarget⟩
  obtain ⟨earlier, same, each⟩ := behind.grown.handlers
  refine ⟨⟨behind.grown.bytes, earlier ++ [entry], ?_, ?_⟩, behind.labels, behind.fixups⟩
  · rw [same, List.append_assoc]
  · intro other member
    rcases List.mem_append.1 member with old | new
    · exact each other old
    · rwa [List.mem_singleton.1 new]

theorem preserves_assembleAll (statements : List Statement) :
    Preserves (Behind before) (assembleAll statements) := by
  constructor
  intro state pool value state' pool' yields behind
  unfold assembleAll at yields
  obtain ⟨_, middle, _, stated, yields⟩ := yields_bind.1 yields
  obtain ⟨_, trace⟩ := yields_statements stated .refl
  have behind := behind.trace trace
  obtain ⟨_, _, _, got, yields⟩ := yields_bind.1 yields
  obtain ⟨rfl, rfl, rfl⟩ := yields_get.1 got
  obtain ⟨_, patched, _, done, yields⟩ := yields_bind.1 yields
  have patches : Preserves (Behind before) (middle.fixups.forM patch) :=
    Preserves.forArray fun fixup member => preserves_patch (behind.fixups fixup member)
  have behind := patches.kept done behind
  obtain ⟨_, _, _, got, yields⟩ := yields_bind.1 yields
  obtain ⟨rfl, rfl, rfl⟩ := yields_get.1 got
  have handlers : Preserves (Behind before) (patched.handlers.forM addHandler) :=
    Preserves.forArray fun handler _ => preserves_addHandler handler
  exact handlers.kept yields behind

theorem assemble_grown {source : String} {scope scope' : Scope} {buffer buffer' : Buffer}
    {pool pool' : Pool}
    (assembled : outcome (assemble source scope buffer) pool = (.ok (scope', buffer'), pool')) :
    Grown buffer buffer' := by
  have initial : Behind buffer { scope, buffer } := by
    refine ⟨⟨List.prefix_rfl, [], by simp, by simp⟩, ?_, by simp⟩
    intro name pos placed
    simp [Assembly.label] at placed
  obtain ⟨sources, state, _, run, rfl, rfl⟩ := outcome_assemble_eq_ok.1 assembled
  exact ((preserves_assembleAll sources).kept run initial).grown

theorem outcome_assemble {source : String} {sources : List Statement} {scope : Scope} {buffer : Buffer}
    {pool : Pool} (split : statements source = .ok sources) :
    outcome (assemble source scope buffer) pool =
      match outcome (assembleAll sources { scope, buffer }) pool with
      | (.ok (_, state), pool') => (.ok (state.scope, state.buffer), pool')
      | (.error fault, pool') => (.error fault, pool') := by
  unfold assemble
  rw [split, outcome_bind]
  show outcome (assembleAll sources { scope, buffer } >>= _) pool = _
  rw [outcome_bind]
  rcases outcome (assembleAll sources { scope, buffer }) pool with ⟨fault | ⟨_, state⟩, pool'⟩
  · rfl
  · rfl

def assembled? (sources : List Statement) (scope : Scope) (buffer : Buffer) (pool : Pool) :
    Option (Buffer × OffsetTable Pool.Constant) :=
  match outcome (assembleAll sources { scope, buffer }) pool with
  | (.ok (_, state), pool') => some (state.buffer, pool'.constants)
  | (.error _, _) => none

theorem exists_assembled {source : String} {sources : List Statement} {scope : Scope}
    {buffer buffer' : Buffer} {pool : Pool} {constants : OffsetTable Pool.Constant}
    (split : statements source = .ok sources)
    (made : assembled? sources scope buffer pool = some (buffer', constants)) :
    ∃ scope' pool', outcome (assemble source scope buffer) pool = (.ok (scope', buffer'), pool') ∧
      pool'.constants = constants := by
  rw [outcome_assemble split]
  unfold assembled? at made
  generalize outcome (assembleAll sources { scope, buffer }) pool = result at made ⊢
  obtain ⟨fault | ⟨_, state⟩, pool'⟩ := result
  · cases made
  · obtain ⟨rfl, rfl⟩ := Prod.mk.inj (Option.some.inj made)
    exact ⟨state.scope, pool', rfl, rfl⟩

structure Bare (mnemonic : String) (opcode : Opcode) : Prop where
  split : statements mnemonic = .ok [⟨1, [.word mnemonic]⟩]
  unplaced : placedLabel? mnemonic = none
  instruction : instruction mnemonic = (do
    emit (·.addOpcode opcode)
    if (← get).buffer.depth < 0 then fail .stackUnderflow)

section Bare

variable {mnemonic : String} {opcode : Opcode} {state : Assembly} {scope : Scope} {buffer : Buffer}
  {pool : Pool}

theorem Bare.yields (bare : Bare mnemonic opcode) {line : Nat}
    (depth : 0 ≤ state.buffer.depth + opcode.growth) :
    Yields (statement ⟨line, [.word mnemonic]⟩) state pool () { state with
      buffer := state.buffer.addOpcode opcode, line, operands := [] } pool := by
  have stays : ¬ (state.buffer.addOpcode opcode).depth < 0 := Int.not_lt.2 depth
  unfold statement
  simp only [placeLabels, bare.unplaced, pure_bind, bare.instruction]
  refine yields_bind.2 ⟨(), _, pool, yields_modify.2 ⟨rfl, rfl⟩, ?_⟩
  refine yields_bind.2 ⟨(), _, pool, yields_modify.2 ⟨rfl, rfl⟩, ?_⟩
  refine yields_bind.2 ⟨(), { state with
    buffer := state.buffer.addOpcode opcode, line, operands := [] }, pool, ?_, rfl⟩
  refine yields_bind.2 ⟨(), _, pool, rfl, ?_⟩
  refine yields_bind.2 ⟨_, _, pool, yields_get.2 ⟨rfl, rfl, rfl⟩, ?_⟩
  dsimp only
  rw [if_neg stays]
  exact yields_pure.2 ⟨rfl, rfl, rfl⟩

theorem Bare.assembled (bare : Bare mnemonic opcode) (depth : 0 ≤ buffer.depth + opcode.growth) :
    outcome (assemble mnemonic scope buffer) pool = (.ok (scope, buffer.addOpcode opcode), pool) := by
  have run : Yields (assembleAll [⟨1, [.word mnemonic]⟩]) { scope, buffer } pool ()
      { scope, buffer := buffer.addOpcode opcode, line := 1, operands := [] } pool := by
    unfold assembleAll
    have listed : Yields ([⟨1, [.word mnemonic]⟩].forM statement) { scope, buffer } pool ()
        { scope, buffer := buffer.addOpcode opcode, line := 1, operands := [] } pool :=
      yields_bind.2 ⟨(), _, pool, bare.yields depth, yields_pure.2 ⟨rfl, rfl, rfl⟩⟩
    exact yields_bind.2 ⟨(), _, pool, listed, rfl⟩
  exact outcome_assemble_eq_ok.2 ⟨_, _, bare.split, run, rfl, rfl⟩

theorem bare_nop : Bare "nop" Opcode.nop := by
  have split : statements "nop" = .ok [⟨1, [.word "nop"]⟩] := by cbv
  have unplaced : placedLabel? "nop" = none := by cbv
  have known : Opcode.ofMnemonic? "nop" = some Opcode.nop := by cbv
  refine ⟨split, unplaced, ?_⟩
  unfold instruction
  simp only [known]
  rfl

theorem assemble_nop (depth : 0 ≤ buffer.depth) :
    outcome (assemble "nop" scope buffer) pool = (.ok (scope, buffer.addOpcode Opcode.nop), pool) := by
  have growth : Opcode.growth Opcode.nop = 0 := by decide +kernel
  exact bare_nop.assembled (by omega)

end Bare

theorem assemble_empty (scope : Scope) (buffer : Buffer) (pool : Pool) :
    outcome (assemble "" scope buffer) pool = (.ok (scope, buffer), pool) := by
  have split : statements "" = .ok [] := by cbv
  have run : Yields (assembleAll []) { scope, buffer } pool () { scope, buffer } pool :=
    yields_bind.2 ⟨(), _, pool, yields_pure.2 ⟨rfl, rfl, rfl⟩, rfl⟩
  exact outcome_assemble_eq_ok.2 ⟨[], _, split, run, rfl, rfl⟩

end ClassSplice.Assembler
