import ClassSplice.Edit.Snippet
import ClassSplice.Proofs.Assembler.Growth
import ClassSplice.Proofs.Edit.Editor
import ClassSplice.Proofs.Layout.Simulation

namespace ClassSplice.Edit

open Code (Buffer Cursor Edge Handler Holds Image Interpretation Listing Located Runs Steps)

/-- The code of a buffer stands in front of the images of the instructions of a body. -/
structure Prologue (code : Code) (buffer : Buffer) (code' : Code) (old : Listing)
    (place : Nat → Nat) (images : Nat → List (Nat × Located)) : Prop where
  head : Holds code'.bytes 0 buffer.bytes.toList
  first : place 0 = buffer.pc
  image : ∀ {pos : Nat} {located : Located}, (pos, located) ∈ old.entries →
    Image (fun target landed => ∃ goal : Nat, old.IsBoundary goal ∧ target = goal ∧
      landed = place goal) (place pos) located.instruction (images pos)
  body : Runs code'.bytes buffer.pc (old.entries.toList.flatMap fun entry => images entry.1)
    code'.bytes.size
  targets : ∀ {pos : Nat} {located : Located},
    (pos, located) ∈ old.entries.toList.flatMap (fun entry => images entry.1) →
      ∀ target ∈ located.instruction.targets, (buffer.pc : Int) ≤ target
  handlers : ∃ moved, code'.handlers = buffer.handlers ++ moved ∧
    List.Forall₂ (fun before after : Handler => after.Spans (place before.start.toNat)
      (place before.stop.toNat) (place before.target.toNat) ∧
        after.catchType = before.catchType) code.handlers moved ∧
    ∀ handler ∈ moved, buffer.pc ≤ handler.start.toNat ∧ buffer.pc ≤ handler.target.toNat
  own : ∀ handler ∈ buffer.handlers, handler.stop.toNat ≤ buffer.pc
  maxStack : code'.maxStack.toNat = max code.maxStack.toNat buffer.maxStack
  maxLocals : code'.maxLocals.toNat = max code.maxLocals.toNat buffer.maxLocals

/-- No step from an old instruction, and no handler of one, leads into the snippet. -/
structure Apart (buffer : Buffer) (code' : Code) (body : List (Nat × Located)) : Prop where
  steps : ∀ {Value : Type} {meaning : Interpretation Value} {value : Value} {pos : Nat}
    {located : Located} {edge : Edge} {goal : Int}, (pos, located) ∈ body →
      Steps meaning code'.bytes value pos edge goal → (buffer.pc : Int) ≤ goal
  handlers : ∀ handler ∈ code'.handlers, ∀ pos, buffer.pc ≤ pos → handler.covers pos = true →
    buffer.pc ≤ handler.target.toNat

theorem Prologue.apart {code code' : Code} {buffer : Buffer} {old : Listing} {place : Nat → Nat}
    {images : Nat → List (Nat × Located)} (prologue : Prologue code buffer code' old place images) :
    Apart buffer code' (old.entries.toList.flatMap fun entry => images entry.1) := by
  constructor
  · intro Value meaning value pos located edge goal member steps
    obtain ⟨located', reads, goes⟩ := steps
    obtain ⟨reads', above, _⟩ := prologue.body.mem_bounds member
    cases reads.unique reads'
    rcases Code.Instruction.successor_mem goes with ⟨_, behind⟩ | named
    · rw [behind]
      omega
    · exact prologue.targets member goal named
  · intro handler member pos above covered
    obtain ⟨moved, same, _, bounds⟩ := prologue.handlers
    rw [same] at member
    rcases List.mem_append.1 member with own | old
    · have stop := prologue.own handler own
      simp only [Handler.covers, Bool.and_eq_true, decide_eq_true_eq] at covered
      omega
    · exact (bounds handler old).2

theorem raiseLimits_eq_ok {code code' : Code} {buffer : Buffer}
    (raised : raiseLimits code buffer = .ok code') :
    code'.maxStack.toNat = max code.maxStack.toNat buffer.maxStack ∧
      code'.maxLocals.toNat = max code.maxLocals.toNat buffer.maxLocals ∧
      code'.bytes = code.bytes ∧ code'.handlers = code.handlers := by
  obtain ⟨⟨stack, locals⟩, limits, raised⟩ := bind_eq_ok.1 raised
  cases pure_eq_ok.1 raised
  have toNat_max (one other : UInt16) : (max one other).toNat = max one.toNat other.toNat := by
    show (if one ≤ other then other else one).toNat = _
    rw [Nat.max_def]
    simp only [UInt16.le_iff_toNat_le]
    split <;> rfl
  unfold Buffer.limits at limits
  split at limits
  · cases limits
  · split at limits
    · cases limits
    · cases limits
      refine ⟨?_, ?_, rfl, rfl⟩
      · rw [toNat_max, UInt16.toNat_ofNat_of_lt' (by simp [UInt16.size]; omega)]
      · rw [toNat_max, UInt16.toNat_ofNat_of_lt' (by simp [UInt16.size]; omega)]

theorem prologue_of_insert {code : Code} {buffer : Buffer} {start : Nat} {cursor cursor' : Cursor}
    (inserted : (Cursor.start code).insert 0 buffer.bytes.toList true = .ok (start, cursor))
    (prepended : cursor.prependHandlers buffer.handlers start = .ok cursor') :
    ∃ old place images, Listing.decode code.bytes = .ok old ∧
      ∀ before : Code, before.handlers = code.handlers →
        (∀ handler ∈ buffer.handlers, handler.stop.toNat ≤ buffer.pc) →
        code.maxStack.toNat = max before.maxStack.toNat buffer.maxStack →
        code.maxLocals.toNat = max before.maxLocals.toNat buffer.maxLocals →
        Prologue before buffer cursor'.code old place images := by
  obtain ⟨middle, old, place, opened, written⟩ := Cursor.insert_eq_ok inserted
  obtain ⟨images, each⟩ := opened.code.exists_images opened.decoded
  have atZero : start = 0 := opened.code.first
  subst atZero
  have first : place 0 = buffer.pc := by
    have behind := opened.code.behind
    simpa [Buffer.pc] using behind
  have landed (pos : Nat) :
      (Code.Relocation.mk ⟨0, buffer.bytes.toList.length, true⟩ 0 place).land pos = place pos := by
    simp [Code.Relocation.land]
  have above {pos : Nat} (boundary : old.IsBoundary pos) : buffer.pc ≤ place pos := by
    rw [← first]
    by_cases atStart : pos = 0
    · rw [atStart]
    · have before := opened.code.ordered opened.code.boundary boundary (Nat.pos_of_ne_zero atStart)
      rw [Code.Relocation.enter, if_neg atStart] at before
      exact Nat.le_of_lt before
  have body : Runs middle.code.bytes buffer.pc
      (old.entries.toList.flatMap fun entry => images entry.1) middle.code.bytes.size := by
    rw [← first]
    exact opened.code.runs_images_front opened.decoded rfl images fun member => (each member).2
  obtain ⟨_, done, prepended⟩ := bind_eq_ok.1 prepended
  cases pure_eq_ok.1 prepended
  obtain rfl := Code.HandlerTable.prepend_zero done
  have moved : ∀ handler ∈ middle.code.handlers,
      buffer.pc ≤ handler.start.toNat ∧ buffer.pc ≤ handler.target.toNat := by
    intro handler member
    obtain ⟨earlier, _, moves⟩ := forall₂_mem_right opened.handlers member
    rw [moves.spans.start, moves.spans.target, landed, landed]
    exact ⟨above moves.boundaries.1, above moves.boundaries.2.2⟩
  have image {pos : Nat} {located : Located} (member : (pos, located) ∈ old.entries) :
      Image (fun target landed => ∃ goal : Nat, old.IsBoundary goal ∧ target = goal ∧
        landed = place goal) (place pos) located.instruction (images pos) := by
    refine (each member).1.mono fun target landing meets => ?_
    obtain ⟨goal, boundary, same, lands⟩ := meets
    exact ⟨goal, boundary, same, lands.trans (congrArg Nat.cast (landed goal))⟩
  refine ⟨old, place, images, opened.decoded, ?_⟩
  intro before handlers own maxStack maxLocals
  refine ⟨written.held, first, image, ?_, ?_, ⟨middle.code.handlers, ?_, ?_, moved⟩, own, ?_, ?_⟩
  · show Runs cursor.code.bytes _ _ cursor.code.bytes.size
    rw [written.size]
    apply body.transfer
    intro pos low high
    exact written.back pos (by simpa [Buffer.pc] using low) high
  · intro pos located member target named
    obtain ⟨⟨pos', located'⟩, known, member⟩ := List.mem_flatMap.1 member
    have known := Array.mem_toList_iff.1 known
    have low := above (.inr ⟨located', known⟩)
    refine (image known).forall_targets ?_ ?_ _ member target named
    · rintro _ _ ⟨goal, boundary, _, rfl⟩
      exact Int.ofNat_le.2 (above boundary)
    · omega
  · show buffer.handlers ++ cursor.code.handlers = _
    rw [written.handlers]
  · rw [handlers]
    refine opened.handlers.imp fun earlier handler moves => ⟨?_, moves.catchType⟩
    have spans := moves.spans
    rwa [landed, landed, landed] at spans
  · show cursor.code.maxStack.toNat = _
    rw [written.maxStack, opened.maxStack, ← maxStack]
    rfl
  · show cursor.code.maxLocals.toNat = _
    rw [written.maxLocals, opened.maxLocals, ← maxLocals]
    rfl

theorem outcome_contextAt_same {editor editor' : Editor} {index : Nat} {context : Context}
    (done : outcome (contextAt index) editor = (.ok context, editor')) : editor = editor' := by
  unfold contextAt at done
  obtain ⟨_, _, step, done⟩ := outcome_bind_eq_ok.1 done
  obtain ⟨_, rfl⟩ := outcome_methodAt_eq_ok.1 step
  obtain ⟨_, _, step, done⟩ := outcome_bind_eq_ok.1 done
  obtain ⟨_, rfl⟩ := outcome_get_eq_ok.1 step
  obtain ⟨_, _, step, done⟩ := outcome_bind_eq_ok.1 done
  obtain ⟨_, rfl⟩ := outcome_require_eq_ok.1 step
  obtain ⟨_, _, step, done⟩ := outcome_bind_eq_ok.1 done
  obtain ⟨_, rfl⟩ := outcome_require_eq_ok.1 step
  exact (outcome_pure_eq_ok.1 done).2

theorem outcome_compileWith_eq_ok {compiler : Compiler} {source : String} {scope : Assembler.Scope}
    {buffer buffer' : Buffer} {pool pool' : Pool} :
    outcome (compileWith compiler source scope buffer) pool = (.ok buffer', pool') ↔
      ∃ scope', outcome (compiler source scope buffer) pool = (.ok (scope', buffer'), pool') := by
  simp only [compileWith, outcome_bind_eq_ok, outcome_adapt_eq_ok, outcome_pure_eq_ok]
  constructor
  · rintro ⟨⟨scope', _⟩, _, compiled, rfl, rfl⟩
    exact ⟨scope', compiled⟩
  · rintro ⟨scope', compiled⟩
    exact ⟨(scope', buffer'), pool', compiled, rfl, rfl⟩

theorem compileWith_nop {scope : Assembler.Scope} {buffer : Buffer} {pool : Pool}
    (depth : 0 ≤ buffer.depth) :
    outcome (compileWith assemble "nop" scope buffer) pool =
      (.ok (buffer.addOpcode Code.Opcode.nop), pool) :=
  outcome_compileWith_eq_ok.2 ⟨scope, Assembler.assemble_nop depth⟩

theorem exists_scope_eq (context : Context) (buffer : Buffer) :
    ∃ slots, (context.scope buffer).2 = buffer.reserveLocals slots := by
  unfold Context.scope Assembler.Scope.bindParameters
  split
  exact ⟨_, rfl⟩

theorem contextAt_smallClass (body : Code) :
    outcome (contextAt 0) (smallClass body) = (.ok ⟨"C", ⟨[], none⟩, true⟩, smallClass body) := by
  obtain ⟨indices, same⟩ := smallPool_eq
  simp only [smallClass, same]
  cbv

def withPrologue (context : Context) (source : String) (code : Code) : PoolEditM Code := do
  let (scope, buffer) := context.scope (.empty 0 0)
  let buffer ← compileWith assemble source scope buffer
  let code ← demand (raiseLimits code buffer)
  let (start, cursor) ← demand ((Cursor.start code).insert 0 buffer.bytes.toList true)
  let cursor ← demand (cursor.prependHandlers buffer.handlers start)
  return cursor.code

theorem outcome_withPrologue_eq_ok {context : Context} {source : String} {code built : Code}
    {pool pool' : Pool} : outcome (withPrologue context source code) pool = (.ok built, pool') ↔
      ∃ scope buffer raised start cursor cursor',
        outcome (assemble source (context.scope (.empty 0 0)).1 (context.scope (.empty 0 0)).2) pool =
          (.ok (scope, buffer), pool') ∧
        raiseLimits code buffer = .ok raised ∧
        (Cursor.start raised).insert 0 buffer.bytes.toList true = .ok (start, cursor) ∧
        cursor.prependHandlers buffer.handlers start = .ok cursor' ∧ cursor'.code = built := by
  constructor
  · intro edited
    obtain ⟨buffer, pool, compiled, edited⟩ := outcome_bind_eq_ok.1 edited
    obtain ⟨scope, assembled⟩ := outcome_compileWith_eq_ok.1 compiled
    obtain ⟨raised, _, step, edited⟩ := outcome_bind_eq_ok.1 edited
    obtain ⟨limited, rfl⟩ := outcome_demand_eq_ok.1 step
    obtain ⟨⟨start, cursor⟩, _, step, edited⟩ := outcome_bind_eq_ok.1 edited
    obtain ⟨inserted, rfl⟩ := outcome_demand_eq_ok.1 step
    obtain ⟨cursor', _, step, edited⟩ := outcome_bind_eq_ok.1 edited
    obtain ⟨prepended, rfl⟩ := outcome_demand_eq_ok.1 step
    obtain ⟨same, rfl⟩ := outcome_pure_eq_ok.1 edited
    exact ⟨scope, buffer, raised, start, cursor, cursor', assembled, limited, inserted, prepended, same⟩
  · rintro ⟨scope, buffer, raised, start, cursor, cursor', assembled, limited, inserted, prepended, rfl⟩
    refine outcome_bind_eq_ok.2 ⟨buffer, _, outcome_compileWith_eq_ok.2 ⟨scope, assembled⟩, ?_⟩
    refine outcome_bind_eq_ok.2 ⟨raised, _, outcome_demand_eq_ok.2 ⟨limited, rfl⟩, ?_⟩
    refine outcome_bind_eq_ok.2 ⟨(start, cursor), _, outcome_demand_eq_ok.2 ⟨inserted, rfl⟩, ?_⟩
    exact outcome_bind_eq_ok.2 ⟨cursor', _, outcome_demand_eq_ok.2 ⟨prepended, rfl⟩, rfl⟩

theorem insertBefore_replaced {editor editor' : Editor} {index : Nat} {source : String}
    (done : outcome (insertBefore assemble index source) editor = (.ok (), editor')) :
    ∃ context code built pool, outcome (contextAt index) editor = (.ok context, editor) ∧
      outcome (withPrologue context source code) editor.file.pool = (.ok built, pool) ∧
      Replaced editor editor' index code built pool := by
  obtain ⟨context, _, known, done⟩ := outcome_bind_eq_ok.1 done
  obtain rfl := outcome_contextAt_same known
  obtain ⟨code, built, pool, edited, replaced⟩ := outcome_patchBody_eq_ok.1 done
  exact ⟨context, code, built, pool, known, edited, replaced⟩

/-- A snippet that is inserted in front of a body becomes its prologue. -/
theorem insertBefore_prologue {editor editor' : Editor} {index : Nat} {source : String}
    (done : outcome (insertBefore assemble index source) editor = (.ok (), editor')) :
    ∃ context code code' scope buffer pool old place images,
      outcome (contextAt index) editor = (.ok context, editor) ∧
      outcome (assemble source (context.scope (.empty 0 0)).1 (context.scope (.empty 0 0)).2)
        editor.file.pool = (.ok (scope, buffer), pool) ∧
      Replaced editor editor' index code code' pool ∧
      Listing.decode code.bytes = .ok old ∧
      Prologue code buffer code' old place images ∧
      Apart buffer code' (old.entries.toList.flatMap fun entry => images entry.1) := by
  obtain ⟨context, code, code', pool, known, edited, replaced⟩ := insertBefore_replaced done
  obtain ⟨scope, buffer, limited, start, cursor, cursor', assembled, raised, inserted, prepended, rfl⟩ :=
    outcome_withPrologue_eq_ok.1 edited
  obtain ⟨maxStack, maxLocals, bytes, handlers⟩ := raiseLimits_eq_ok raised
  obtain ⟨old, place, images, decoded, prologue⟩ := prologue_of_insert inserted prepended
  have own : ∀ handler ∈ buffer.handlers, handler.stop.toNat ≤ buffer.pc := by
    obtain ⟨added, same, within⟩ := (Assembler.assemble_grown assembled).handlers
    intro handler member
    rw [same] at member
    exact (within handler member).stop
  have prologue := prologue code handlers.symm own maxStack maxLocals
  rw [bytes] at decoded
  exact ⟨context, code, cursor'.code, scope, buffer, _, old, place, images, known, assembled,
    replaced, decoded, prologue, prologue.apart⟩

theorem exists_insertBefore_smallClass {body raised : Code} {source : String}
    {scope : Assembler.Scope} {buffer : Buffer} {start : Nat} {cursor cursor' : Cursor}
    (read : Code.parse body.write smallPool = .ok body)
    (assembled : outcome (assemble source [] (.empty 0 0)) smallPool = (.ok (scope, buffer), smallPool))
    (limited : raiseLimits body buffer = .ok raised)
    (inserted : (Cursor.start raised).insert 0 buffer.bytes.toList true = .ok (start, cursor))
    (prepended : cursor.prependHandlers buffer.handlers start = .ok cursor')
    (sound : checkBody cursor'.code ⟨50, 0⟩ = .ok ()) : ∃ editor',
      outcome (insertBefore assemble 0 source) (smallClass body) = (.ok (), editor') := by
  have edited : outcome (withPrologue ⟨"C", ⟨[], none⟩, true⟩ source body) smallPool =
      (.ok cursor'.code, smallPool) :=
    outcome_withPrologue_eq_ok.2
      ⟨scope, buffer, raised, start, cursor, cursor', assembled, limited, inserted, prepended, rfl⟩
  obtain ⟨editor', done⟩ := exists_patched read edited sound
  exact ⟨editor', outcome_bind_eq_ok.2 ⟨_, _, contextAt_smallClass body, done⟩⟩

set_option maxRecDepth 4000 in
theorem insertBefore_prologue_loop :
    ∃ editor', outcome (insertBefore assemble 0 "nop") (smallClass Cursor.loopBody.code) =
        (.ok (), editor') ∧
      ∃ code code' buffer pool old place images,
        Replaced (smallClass Cursor.loopBody.code) editor' 0 code code' pool ∧
        Prologue code buffer code' old place images := by
  have edited : ∃ editor', outcome (insertBefore assemble 0 "nop")
      (smallClass Cursor.loopBody.code) = (.ok (), editor') := by
    have inserted : (Cursor.start Cursor.loopBody.code).insert 0 [Code.Opcode.nop] true =
        .ok (0, ⟨⟨1, 1, #[0x00, 0x1a, 0x99, 0xff, 0xff, 0xb1], [], []⟩, 1⟩) := by
      cbv
    have sound : checkBody ⟨1, 1, #[0x00, 0x1a, 0x99, 0xff, 0xff, 0xb1], [], []⟩ ⟨50, 0⟩ = .ok () := by
      cbv
    exact exists_insertBefore_smallClass rfl (Assembler.assemble_nop (Int.le_refl 0)) rfl inserted
      rfl sound
  obtain ⟨editor', done⟩ := edited
  obtain ⟨_, code, code', _, buffer, pool, old, place, images, _, _, replaced, _, prologue, _⟩ :=
    insertBefore_prologue done
  exact ⟨editor', done, code, code', buffer, pool, old, place, images, replaced, prologue⟩

end ClassSplice.Edit
