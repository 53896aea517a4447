import ClassSplice.Proofs.Assembler.Constants
import ClassSplice.Proofs.Assembler.Emission

namespace ClassSplice.Assembler

open Code (Buffer)
open Pool (Extended)

structure Places (name : String) (start state : Assembly) : Prop where
  fresh : (start.label name).pos = none
  label : ∀ other, state.label other = if name = other then
    { pos := some start.buffer.pc, depth := some ((start.label name).depth.getD start.buffer.depth) }
    else start.label other
  bytes : state.buffer.bytes = start.buffer.bytes
  depth : state.buffer.depth =
    if start.reachable then start.buffer.depth else (start.label name).depth.getD start.buffer.depth
  maxStack : start.buffer.maxStack ≤ state.buffer.maxStack
  high : start.buffer.depth ≤ start.buffer.maxStack → state.buffer.depth ≤ state.buffer.maxStack
  maxLocals : state.buffer.maxLocals = start.buffer.maxLocals
  table : state.buffer.handlers = start.buffer.handlers
  fixups : state.fixups = start.fixups
  handlers : state.handlers = start.handlers
  reachable : state.reachable = true

variable {start state : Assembly} {pool pool' last : Pool} {name : String} {source : Statement}
  {pieces : List Piece}

theorem yields_placeLabel {value : Unit} (yields : Yields (placeLabel name) start pool value state pool') :
    Places name start state ∧ pool = pool' := by
  unfold placeLabel at yields
  obtain ⟨_, _, _, got, yields⟩ := yields_bind.1 yields
  obtain ⟨rfl, rfl, rfl⟩ := yields_get.1 got
  dsimp only at yields
  split at yields
  · exact absurd yields not_yields_fail
  · rename_i unplaced
    obtain ⟨rfl, rfl⟩ := yields_set.1 yields
    have fresh : (start.label name).pos = none := by simpa using unplaced
    refine ⟨⟨fresh, fun other => label_setLabel start name other _, ?_, ?_, ?_, ?_, ?_, ?_, rfl, rfl, rfl⟩, rfl⟩
    all_goals dsimp only
    all_goals
      cases noted : (start.label name).depth with
      | none => simp
      | some depth =>
          by_cases reachable : start.reachable = true
          · simp [reachable]
          · simp [reachable, Buffer.setDepth]
            try omega

inductive Lands : List String → Assembly → Assembly → Prop
  | nil (state : Assembly) : Lands [] state state
  | cons {name : String} {names : List String} {start between state : Assembly}
      (places : Places name start between) (rest : Lands names between state) :
      Lands (name :: names) start state

theorem placeLabels_eq (tokens : List Token) : placeLabels tokens = (do
    (splitLabels tokens).1.forM placeLabel
    return (splitLabels tokens).2) := by
  fun_induction placeLabels tokens with
  | case1 word rest label found ih =>
      simp only [splitLabels, found, List.forM_eq_forM, List.forM_cons, bind_assoc] at ih ⊢
      rw [ih]
  | case2 word rest missing =>
      simp [splitLabels, missing]
  | case3 tokens other =>
      unfold splitLabels
      split
      · exact absurd rfl (other _ _)
      · simp

theorem yields_forM_placeLabel {names : List String} {value : Unit}
    (yields : Yields (names.forM placeLabel) start pool value state pool') :
    Lands names start state ∧ pool = pool' := by
  induction names generalizing start pool with
  | nil =>
      obtain ⟨_, rfl, rfl⟩ := yields_pure.1 yields
      exact ⟨.nil _, rfl⟩
  | cons name names ih =>
      obtain ⟨_, _, _, first, yields⟩ := yields_bind.1 yields
      obtain ⟨places, rfl⟩ := yields_placeLabel first
      obtain ⟨lands, rfl⟩ := ih yields
      exact ⟨.cons places lands, rfl⟩

theorem yields_placeLabels {tokens rest : List Token}
    (yields : Yields (placeLabels tokens) start pool rest state pool') :
    Lands (splitLabels tokens).1 start state ∧ rest = (splitLabels tokens).2 ∧ pool = pool' := by
  rw [placeLabels_eq] at yields
  obtain ⟨_, _, _, placed, yields⟩ := yields_bind.1 yields
  obtain ⟨rfl, rfl, rfl⟩ := yields_pure.1 yields
  obtain ⟨lands, rfl⟩ := yields_forM_placeLabel placed
  exact ⟨lands, rfl, rfl⟩

inductive Treats (start : Assembly) (pool : Pool) (source : Statement) (pieces : List Piece)
    (state : Assembly) : Prop
  | intro {landed : Assembly} (lands : Lands source.labels { start with line := source.line } landed)
      (acts : Acts landed pool source.clause pieces state)

theorem Acts.of_operands {clause : Clause} {operands : List Token}
    (acts : Acts { start with operands } pool clause pieces state) : Acts start pool clause pieces state := by
  cases acts with
  | silent more => exact .silent more
  | handler => exact .handler
  | writes writes =>
      obtain ⟨effect, emits, known⟩ := writes
      exact .writes ⟨effect, ⟨emits.pos, emits.grows, emits.reaches,
        ⟨emits.notes.label, emits.notes.fixups, emits.notes.handlers⟩, emits.blank, emits.wellFormed,
        emits.measured, emits.said, emits.fits⟩, known⟩

theorem yields_statement {value : Unit} (yields : Yields (statement source) start pool value state pool') :
    ∃ pieces, Treats start pool' source pieces state := by
  unfold statement at yields
  obtain ⟨_, _, _, numbered, yields⟩ := yields_bind.1 yields
  obtain ⟨rfl, rfl⟩ := yields_modify.1 numbered
  obtain ⟨rest, landed, _, placed, yields⟩ := yields_bind.1 yields
  obtain ⟨lands, split, rfl⟩ := yields_placeLabels placed
  have clause : source.clause = .ofTokens rest := by rw [split, Statement.clause]
  split at yields
  · obtain ⟨_, rfl, rfl⟩ := yields_pure.1 yields
    refine ⟨[], .intro lands ?_⟩
    rw [clause]
    exact .silent (Nat.le_refl _)
  · exact absurd yields not_yields_fail
  · rename_i mnemonic operands
    obtain ⟨_, _, _, given, yields⟩ := yields_bind.1 yields
    obtain ⟨rfl, rfl⟩ := yields_modify.1 given
    obtain ⟨_, _, _, done, yields⟩ := yields_bind.1 yields
    obtain ⟨rfl, rfl⟩ := yields_finishOperands yields
    obtain ⟨pieces, acts⟩ := (leads_instruction mnemonic).leads done rfl
    refine ⟨pieces, .intro lands ?_⟩
    rw [clause]
    exact acts.of_operands

structure Advances (start : Assembly) (pieces : List Piece) (state : Assembly) : Prop where
  bytes : state.buffer.bytes.toList =
    start.buffer.bytes.toList ++ pieces.flatMap fun piece => piece.instruction.spell piece.pos
  fixups : state.fixups.toList = start.fixups.toList ++ pieces.flatMap Piece.fixups
  pos : ∀ {name pos}, (start.label name).pos = some pos → (state.label name).pos = some pos
  table : state.buffer.handlers = start.buffer.handlers
  maxStack : start.buffer.maxStack ≤ state.buffer.maxStack
  maxLocals : start.buffer.maxLocals ≤ state.buffer.maxLocals

theorem Advances.trans {between : Assembly} {more : List Piece} (first : Advances start pieces between)
    (second : Advances between more state) : Advances start (pieces ++ more) state where
  bytes := by rw [second.bytes, first.bytes, List.flatMap_append, List.append_assoc]
  fixups := by rw [second.fixups, first.fixups, List.flatMap_append, List.append_assoc]
  pos placed := second.pos (first.pos placed)
  table := second.table.trans first.table
  maxStack := first.maxStack.trans second.maxStack
  maxLocals := first.maxLocals.trans second.maxLocals

theorem Advances.refl (state : Assembly) : Advances state [] state :=
  ⟨by simp, by simp, id, rfl, le_rfl, le_rfl⟩

theorem Advances.pc (advances : Advances start pieces state) : start.buffer.pc ≤ state.buffer.pc := by
  have length := congrArg List.length advances.bytes
  simp only [List.length_append, Array.length_toList] at length
  show start.buffer.bytes.size ≤ state.buffer.bytes.size
  omega

theorem Places.advances (places : Places name start state) : Advances start [] state where
  bytes := by simp [places.bytes]
  fixups := by simp [places.fixups]
  pos {other pos} placed := by
    rw [places.label]
    split
    · rename_i same
      rw [← same, places.fresh] at placed
      cases placed
    · exact placed
  table := places.table
  maxStack := places.maxStack
  maxLocals := places.maxLocals.ge

theorem Lands.advances {names : List String} (lands : Lands names start state) :
    Advances start [] state := by
  induction lands with
  | nil => exact .refl _
  | cons places _ ih => exact places.advances.trans ih

theorem Lands.pc {names : List String} (lands : Lands names start state) :
    state.buffer.pc = start.buffer.pc := by
  induction lands with
  | nil => rfl
  | cons places _ ih => exact ih.trans (congrArg Array.size places.bytes)

theorem Acts.pos {clause : Clause} (acts : Acts start pool clause pieces state) (name : String) :
    (state.label name).pos = (start.label name).pos := by
  cases acts with
  | silent => rfl
  | handler =>
      show ((Assembly.setLabel _ _ _).label name).pos = _
      rw [label_setLabel]
      split
      · rename_i same
        rw [← same, Label.pos_met]
      · rfl
  | writes writes =>
      obtain ⟨effect, emits, _⟩ := writes
      rw [emits.notes.label]
      split <;> rfl

theorem Acts.advances {clause : Clause} (acts : Acts start pool clause pieces state) :
    Advances start pieces state := by
  have pos {name : String} {pos : Nat} (placed : (start.label name).pos = some pos) :
      (state.label name).pos = some pos := (acts.pos name).trans placed
  cases acts with
  | silent more => exact ⟨by simp, by simp, pos, rfl, le_rfl, more⟩
  | handler => exact ⟨by simp [Assembly.setLabel], by simp [Assembly.setLabel], pos, rfl, le_rfl, le_rfl⟩
  | writes writes =>
      obtain ⟨effect, emits, _⟩ := writes
      exact ⟨by simpa using emits.grows.bytes, by simpa using emits.notes.fixups, pos,
        emits.grows.handlers, emits.grows.maxStack, emits.grows.maxLocals⟩

theorem Acts.piece {clause : Clause} (acts : Acts start pool clause pieces state) {piece : Piece}
    (member : piece ∈ pieces) : piece.pos = start.buffer.pc ∧ piece.Blank ∧
      (state.buffer.pc ≤ 2147483647 → piece.instruction.WellFormed) := by
  cases acts with
  | silent | handler => cases member
  | writes writes =>
      obtain ⟨effect, emits, _⟩ := writes
      cases List.mem_singleton.1 member
      exact ⟨emits.pos, emits.blank, emits.wellFormed⟩

theorem Treats.advances (treats : Treats start pool source pieces state) :
    Advances start pieces state := by
  obtain ⟨lands, acts⟩ := treats
  have line : Advances start [] { start with line := source.line } :=
    ⟨by simp, by simp, id, rfl, le_rfl, le_rfl⟩
  exact (line.trans lands.advances).trans acts.advances

/-- Statements in a row, each with the pieces of code that it adds; `last` is the pool behind them. -/
inductive Trace (last : Pool) : Assembly → List Statement → List (List Piece) → Assembly → Prop
  | done (state : Assembly) : Trace last state [] [] state
  | step {start between state : Assembly} {pool : Pool} {source : Statement} {pieces : List Piece}
      {sources : List Statement} {groups : List (List Piece)}
      (treats : Treats start pool source pieces between) (extended : Extended pool last)
      (rest : Trace last between sources groups state) :
      Trace last start (source :: sources) (pieces :: groups) state

theorem yields_statements {sources : List Statement} {value : Unit}
    (yields : Yields (sources.forM statement) start pool value state pool')
    (extended : Extended pool' last) : ∃ groups, Trace last start sources groups state := by
  induction sources generalizing start pool with
  | nil =>
      obtain ⟨_, rfl, _⟩ := yields_pure.1 yields
      exact ⟨[], .done _⟩
  | cons source sources ih =>
      obtain ⟨_, middle, pool₁, first, yields⟩ := yields_bind.1 yields
      obtain ⟨pieces, treats⟩ := yields_statement first
      obtain ⟨groups, trace⟩ := ih yields
      have more := (AddsConstants.forM addsConstants_statement sources).appends middle
      exact ⟨pieces :: groups, .step treats ((more.extended yields).trans extended) trace⟩

theorem Trace.advances {sources : List Statement} {groups : List (List Piece)}
    (trace : Trace last start sources groups state) : Advances start groups.flatten state := by
  induction trace with
  | done => exact .refl _
  | step treats _ _ ih => exact treats.advances.trans ih

end ClassSplice.Assembler
