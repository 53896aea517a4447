import ClassSplice.Proofs.Assembler.Draft
import ClassSplice.Proofs.Assembler.ParallelSteps
import ClassSplice.Proofs.Assembler.Placement
import ClassSplice.Proofs.Assembler.Splitting

namespace ClassSplice.Assembler

open Code (Buffer Handler Opcode)

variable {source : String} {scope scope' : Scope} {buffer buffer' : Buffer} {pool pool' : Pool}

theorem preserves_finish (stop : Nat) : Preserves (fun state => state.buffer.pc = stop) finish := by
  unfold finish
  refine .bind .get fun _ => .bind (.forArray fun fixup _ => ⟨?_⟩) fun _ =>
    .bind .get fun _ => .forArray fun handler _ => ⟨?_⟩
  · intro state pool value state' pool' yields ends
    obtain ⟨target, _, _, rfl⟩ := yields_patch yields
    exact (Buffer.pc_overwrite ..).trans ends
  · intro state pool value state' pool' yields ends
    have here : Handles state [] state := ⟨rfl, rfl, [], (List.append_nil _).symm, .nil⟩
    rw [(here.add yields).rest]
    exact ends

theorem comesTo_of_assemble
    (assembled : outcome (assemble source scope buffer) pool = (.ok (scope', buffer'), pool')) :
    ComesTo source scope buffer pool buffer'.pc := by
  obtain ⟨sources, state, split, run, rfl, rfl⟩ := outcome_assemble_eq_ok.1 assembled
  obtain ⟨_, traced, _, stated, finished⟩ := yields_bind.1 run
  exact ⟨sources, traced, _, split, stated, ((preserves_finish _).kept finished rfl).symm⟩

theorem bounds_of_assemble
    (assembled : outcome (assemble source scope buffer) pool = (.ok (scope', buffer'), pool')) :
    ∃ added, buffer'.handlers = buffer.handlers ++ added ∧ ∀ handler ∈ added,
      handler.start.toNat ≤ buffer'.pc ∧ handler.stop.toNat ≤ buffer'.pc ∧
        handler.target.toNat ≤ buffer'.pc := by
  obtain ⟨sources, groups, traced, _, completes⟩ := assemble_completes assembled
  obtain ⟨added, same, entered⟩ := completes.handlers
  refine ⟨added, same, fun handler member => ?_⟩
  obtain ⟨pending, _, enters⟩ := forall₂_mem_right entered member
  have spans := enters.spans
  rw [completes.pc, spans.start, spans.stop, spans.target]
  exact ⟨completes.trace.pos_le enters.start, completes.trace.pos_le enters.stop,
    completes.trace.pos_le enters.target⟩

/-- What a listing comes to in an empty buffer, and behind the code of another with the same limits. -/
inductive Relocates (buffer : Buffer) :
    Except Fault (Scope × Buffer) × Pool → Except Fault (Scope × Buffer) × Pool → Prop
  | ok {scope : Scope} {bare placed : Buffer} {pool : Pool} {added : List Handler}
      (bytes : placed.bytes = buffer.bytes ++ bare.bytes)
      (handlers : placed.handlers = buffer.handlers ++ added)
      (moved : List.Forall₂ (Handler.MovedBy buffer.pc) bare.handlers added)
      (depth : placed.depth = bare.depth) (maxStack : placed.maxStack = bare.maxStack)
      (maxLocals : placed.maxLocals = bare.maxLocals) :
      Relocates buffer (.ok (scope, bare), pool) (.ok (scope, placed), pool)
  | error (line : Nat) (cause : Cause) (pool : Pool) :
      Relocates buffer (.error ⟨line, cause⟩, pool) (.error ⟨line, cause.moved buffer.pc⟩, pool)

/-- Every listing comes to the same wherever it stands, if offsets fit and no switch is padded
otherwise. -/
theorem assemble_relocates (switches : HasSwitch source → 4 ∣ buffer.pc)
    (room : ∀ stop, ComesTo source scope buffer.cleared pool stop → buffer.pc + stop ≤ 65535) :
    Relocates buffer (outcome (assemble source scope buffer.cleared) pool)
      (outcome (assemble source scope buffer) pool) := by
  let shift : Shift := ⟨buffer, Eq⟩
  have splits : shift.Splits (statements source) (statements source) :=
    splits_statements (fun _ => rfl) source
  have ends : shift.Ends (outcome (assemble source scope buffer.cleared) pool)
      (outcome (assemble source scope (buffer.cleared.onto buffer)) pool) :=
    ends_assemble splits switches (.inr room)
  rw [Buffer.cleared_onto] at ends
  generalize near : outcome (assemble source scope buffer.cleared) pool = result at ends ⊢
  generalize outcome (assemble source scope buffer) pool = result' at ends ⊢
  cases ends with
  | @error fault fault' _ faults =>
      obtain ⟨line, cause⟩ := fault
      obtain ⟨line', cause'⟩ := fault'
      obtain rfl : line = line' := faults.line
      obtain rfl : cause' = cause.moved buffer.pc := faults.cause
      exact .error line cause _
  | @ok _ bare _ _ moved =>
      subst moved
      refine .ok rfl rfl ?_ rfl rfl rfl
      obtain ⟨added, same, within⟩ := bounds_of_assemble near
      have fits := room _ (comesTo_of_assemble near)
      rw [List.forall₂_map_right_iff, List.forall₂_same]
      intro handler member
      -- The buffer was empty, so all handlers are the listing's, and lie within its code.
      have only : bare.handlers = added := by rw [same]; rfl
      obtain ⟨low, high, goal⟩ := within handler (only ▸ member)
      exact Handler.movedBy_moved (by omega) (by omega) (by omega)

def fourBytes : Buffer :=
  ⟨#[0, 0, 0, 0], 0, 0, 0, [⟨0, 4, 0, 0⟩]⟩

theorem ComesTo.unique {stop stop' : Nat} (comes : ComesTo source scope buffer pool stop)
    (comes' : ComesTo source scope buffer pool stop') : stop = stop' := by
  obtain ⟨sources, state, _, split, yields, rfl⟩ := comes
  obtain ⟨_, _, _, split', yields', rfl⟩ := comes'
  cases split.symm.trans split'
  cases yields.symm.trans yields'
  rfl

theorem assemble_relocates_loop : (HasSwitch loopSource → 4 ∣ fourBytes.pc) ∧
    (∀ stop, ComesTo loopSource [] fourBytes.cleared .empty stop → fourBytes.pc + stop ≤ 65535) ∧
    ∃ scope' pool', outcome (assemble loopSource [] fourBytes) .empty =
      (.ok (scope', ⟨fourBytes.bytes ++ loopBytes, 0, 1, 0, [⟨0, 4, 0, 0⟩, ⟨8, 32, 33, 0⟩]⟩), pool') := by
  have switches : HasSwitch loopSource → 4 ∣ fourBytes.pc := fun _ => Nat.dvd_refl 4
  obtain ⟨scope', pool', assembled⟩ := exists_assemble_loopSource
  have assembled : outcome (assemble loopSource [] fourBytes.cleared) .empty =
      (.ok (scope', loopBuffer), pool') := assembled
  have room : ∀ stop, ComesTo loopSource [] fourBytes.cleared .empty stop →
      fourBytes.pc + stop ≤ 65535 := by
    intro stop comes
    obtain rfl := comes.unique (comesTo_of_assemble assembled)
    decide
  have relocates := assemble_relocates switches room
  rw [assembled] at relocates
  generalize outcome (assemble loopSource [] fourBytes) .empty = result at relocates ⊢
  obtain @⟨_, _, ⟨_, _, _, _, _⟩, _, added, rfl, rfl, moved, rfl, rfl, rfl⟩ := relocates
  obtain _ | ⟨moves, _ | _⟩ := moved
  cases moves.eq_moved
  exact ⟨switches, room, scope', pool', rfl⟩

section EmptyRange

variable {state : Assembly} {name : String}

def emptyRange : String :=
  "a: nop; catch any from a to a using a"

def emptyRangeStatements : List Statement :=
  [⟨1, [.word "a:", .word "nop"]⟩,
    ⟨1, [.word "catch", .word "any", .word "from", .word "a", .word "to", .word "a", .word "using",
      .word "a"]⟩]

theorem statements_emptyRange : statements emptyRange = .ok emptyRangeStatements := by
  cbv

theorem yields_placeLabel_fresh (fresh : state.label name = {}) :
    Yields (placeLabel name) state pool () { state.setLabel name
      ⟨some state.buffer.pc, some state.buffer.depth⟩ with reachable := true } pool := by
  unfold placeLabel
  refine yields_bind.2 ⟨_, _, _, yields_get.2 ⟨rfl, rfl, rfl⟩, ?_⟩
  dsimp only
  rw [fresh]
  exact yields_set.2 ⟨rfl, rfl⟩

theorem yields_labeled {word : String} {tokens : List Token} {line : Nat} {landed state' : Assembly}
    {middle : Pool} (named : placedLabel? word = some name)
    (places : Yields (placeLabel name) { state with line } pool () landed middle)
    (numbered : landed.line = line)
    (rest : Yields (statement ⟨line, tokens⟩) landed middle () state' pool') :
    Yields (statement ⟨line, .word word :: tokens⟩) state pool () state' pool' := by
  unfold statement at rest ⊢
  obtain ⟨_, _, _, same, rest⟩ := yields_bind.1 rest
  obtain ⟨rfl, rfl⟩ := yields_modify.1 same
  simp only [placeLabels, named, bind_assoc]
  refine yields_bind.2 ⟨(), _, pool, yields_modify.2 ⟨rfl, rfl⟩, ?_⟩
  refine yields_bind.2 ⟨(), landed, middle, places, ?_⟩
  subst numbered
  exact rest

theorem yields_catch : Yields (statement ⟨1, [.word "catch", .word "any", .word "from", .word "a",
      .word "to", .word "a", .word "using", .word "a"]⟩) state pool ()
    { state.setLabel "a" ((state.label "a").met 1) with
      line := 1, operands := [], handlers := state.handlers.push ⟨1, "a", "a", "a", 0⟩ } pool := by
  have unplaced : placedLabel? "catch" = none := by cbv
  unfold statement
  simp only [placeLabels, unplaced, pure_bind]
  rfl

theorem yields_emptyRange (pool : Pool) (starts : 0 ≤ buffer.depth) : ∃ last,
    Yields (emptyRangeStatements.forM statement) { scope := [], buffer } pool () last pool ∧
      last.buffer = buffer.addOpcode Opcode.nop ∧ (last.label "a").pos = some buffer.pc ∧
      last.fixups = #[] ∧ last.handlers = #[⟨1, "a", "a", "a", 0⟩] := by
  have named : placedLabel? "a:" = some "a" := by decide +kernel
  have growth : Opcode.growth Opcode.nop = 0 := by decide +kernel
  have fresh : ({ scope := [], buffer } : Assembly).label "a" = {} := by simp [Assembly.label]
  obtain ⟨landed, places, rfl, placed, bare, free, numbered⟩ : ∃ landed,
      Yields (placeLabel "a") { scope := [], buffer } pool () landed pool ∧ landed.buffer = buffer ∧
        (landed.label "a").pos = some buffer.pc ∧ landed.fixups = #[] ∧ landed.handlers = #[] ∧
        landed.line = 1 :=
    ⟨_, yields_placeLabel_fresh fresh, rfl, by simp [Assembly.label, Assembly.setLabel], rfl, rfl, rfl⟩
  have nop : Yields (statement ⟨1, [.word "a:", .word "nop"]⟩)
      { scope := [], buffer := landed.buffer } pool ()
      { landed with buffer := landed.buffer.addOpcode Opcode.nop, line := 1, operands := [] } pool :=
    yields_labeled named places numbered (bare_nop.yields (by omega))
  refine ⟨_, yields_bind.2 ⟨(), _, pool, nop, yields_bind.2 ⟨(), _, pool, yields_catch, rfl⟩⟩, rfl, ?_,
    bare, ?_⟩
  · show (Assembly.label (Assembly.setLabel _ "a" _) "a").pos = _
    rw [label_setLabel, if_pos rfl]
    exact placed
  · show landed.handlers.push _ = _
    rw [free]
    rfl

theorem yields_placedAt_of_pos {pos : Nat} (placed : (state.label name).pos = some pos) :
    Yields (placedAt name) state pool pos state pool := by
  unfold placedAt
  refine yields_bind.2 ⟨_, _, _, yields_get.2 ⟨rfl, rfl, rfl⟩, ?_⟩
  rw [placed]
  exact yields_pure.2 ⟨rfl, rfl, rfl⟩

theorem refused_addHandler {pos : Nat} (placed : (state.label name).pos = some pos) (line : Nat)
    (catchType : Pool.Index) : outcome (addHandler ⟨line, name, name, name, catchType⟩ state) pool =
      (.error ⟨line, .encoding (.badHandlers (.emptyRange pos pos))⟩, pool) := by
  have empty : state.buffer.addHandler pos pos pos catchType =
      .error (.badHandlers (.emptyRange pos pos)) := by
    have made : Handler.make pos pos pos catchType = .error (.badHandlers (.emptyRange pos pos)) :=
      if_pos (Nat.le_refl pos)
    unfold Buffer.addHandler Code.HandlerTable.add
    rw [made]
    rfl
  unfold addHandler
  refine refused_bind () (yields_modify.2 ⟨rfl, rfl⟩) ?_
  have found {line : Nat} : Yields (placedAt name) { state with line } pool pos { state with line } pool :=
    yields_placedAt_of_pos placed
  refine refused_bind pos found (refused_bind pos found (refused_bind pos found ?_))
  refine refused_bind _ (yields_get.2 ⟨rfl, rfl, rfl⟩) ?_
  dsimp only
  rw [empty]
  rfl

theorem refused_emptyRange (starts : 0 ≤ buffer.depth) :
    outcome (assemble emptyRange [] buffer) pool =
      (.error ⟨1, .encoding (.badHandlers (.emptyRange buffer.pc buffer.pc))⟩, pool) := by
  obtain ⟨last, stated, _, placed, bare, declared⟩ := yields_emptyRange pool starts
  have refused : outcome (assembleAll emptyRangeStatements { scope := [], buffer }) pool =
      (.error ⟨1, .encoding (.badHandlers (.emptyRange buffer.pc buffer.pc))⟩, pool) := by
    unfold assembleAll
    refine refused_bind () stated (refused_bind _ (yields_get.2 ⟨rfl, rfl, rfl⟩) ?_)
    rw [bare]
    refine refused_bind () (yields_pure.2 ⟨rfl, rfl, rfl⟩) ?_
    refine refused_bind _ (yields_get.2 ⟨rfl, rfl, rfl⟩) ?_
    rw [declared]
    show outcome ((addHandler ⟨1, "a", "a", "a", 0⟩ >>= fun _ => pure PUnit.unit) last) pool = _
    rw [outcome_step_bind, refused_addHandler placed]
  rw [outcome_assemble statements_emptyRange, refused]

/-- The error for an empty range differs with the place of the code. -/
theorem emptyRange_named : 4 ∣ fourBytes.pc ∧
    (∀ stop, ComesTo emptyRange [] fourBytes.cleared .empty stop → fourBytes.pc + stop ≤ 65535) ∧
    outcome (assemble emptyRange [] fourBytes.cleared) .empty =
      (.error ⟨1, .encoding (.badHandlers (.emptyRange 0 0))⟩, .empty) ∧
    outcome (assemble emptyRange [] fourBytes) .empty =
      (.error ⟨1, .encoding (.badHandlers (.emptyRange 4 4))⟩, .empty) := by
  have starts : 0 ≤ fourBytes.depth := Int.le_refl 0
  have cleared : 0 ≤ fourBytes.cleared.depth := starts
  refine ⟨Nat.dvd_refl 4, ?_, refused_emptyRange cleared, refused_emptyRange starts⟩
  rintro stop ⟨sources, state, pool', split, yields, rfl⟩
  cases split.symm.trans statements_emptyRange
  obtain ⟨last, stated, known, _⟩ := yields_emptyRange .empty cleared
  cases yields.symm.trans stated
  rw [known]
  decide

end EmptyRange

end ClassSplice.Assembler
