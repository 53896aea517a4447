import ClassSplice.Proofs.Assembler.Straight
import ClassSplice.Proofs.Edit.Before
import ClassSplice.Proofs.Layout.Depths

/-!
The limit of the operand stack once a snippet stands in front of a body. It is the larger of both
limits, but the body runs on top of what the snippet leaves: `insertBefore_bounded_iff` says when the
new limit still holds.
-/

namespace ClassSplice.Edit

open Code (Arrives Bounded Buffer Comes Cursor Handler Holds Listing Planted Runs Steady Straight)

structure Headed (code : Code) (buffer : Buffer) (code' : Code) (old : Listing)
    (place : Nat → Nat) : Prop where
  decoded : Listing.decode code.bytes = .ok old
  planted : Planted old place code'.bytes
  first : place 0 = buffer.pc
  head : Holds code'.bytes 0 buffer.bytes.toList
  small : code'.bytes.size ≤ Code.maxLength
  handlers : ∃ moved, code'.handlers = buffer.handlers ++ moved ∧
    List.Forall₂ (fun before after : Handler => old.IsBoundary before.target.toNat ∧
      after.target.toNat = place before.target.toNat) code.handlers moved
  maxStack : code'.maxStack.toNat = max code.maxStack.toNat buffer.maxStack

section Headed

variable {code code' : Code} {buffer : Buffer} {old snippet : Listing} {place : Nat → Nat}
  {before pool : Pool} {depth : Nat → Int}

theorem headed_of_insert {limited : Code} {start : Nat} {cursor cursor' : Cursor}
    (raised : raiseLimits code buffer = .ok limited)
    (inserted : (Cursor.start limited).insert 0 buffer.bytes.toList true = .ok (start, cursor))
    (prepended : cursor.prependHandlers buffer.handlers start = .ok cursor') :
    ∃ old place, Headed code buffer cursor'.code old place := by
  obtain ⟨maxStack, _, bytes, handlers⟩ := raiseLimits_eq_ok raised
  obtain ⟨middle, old, place, opened, written⟩ := Cursor.insert_eq_ok inserted
  have atZero : start = 0 := opened.code.first
  subst atZero
  have first : place 0 = buffer.pc := by
    have behind := opened.code.behind
    simpa [Buffer.pc] using behind
  obtain ⟨_, done, prepended⟩ := bind_eq_ok.1 prepended
  cases pure_eq_ok.1 prepended
  obtain rfl := Code.HandlerTable.prepend_zero done
  have planted : Planted old place cursor.code.bytes := by
    refine opened.code.planted rfl rfl opened.decoded written.size fun i low high => written.back i ?_ high
    have low : place 0 ≤ i := low
    rw [first] at low
    simpa [Buffer.pc] using low
  refine ⟨old, place, ?_, planted, first, written.held, ?_, ⟨middle.code.handlers, ?_, ?_⟩, ?_⟩
  · rw [← bytes]
    exact opened.decoded
  · show cursor.code.bytes.size ≤ _
    rw [written.size]
    exact opened.bounded
  · show buffer.handlers ++ cursor.code.handlers = _
    rw [written.handlers]
  · rw [← handlers]
    refine opened.handlers.imp fun earlier handler moves => ⟨moves.boundaries.2.2, ?_⟩
    rw [moves.spans.target]
    simp [Code.Relocation.land]
  · show cursor.code.maxStack.toNat = _
    rw [written.maxStack, opened.maxStack, ← maxStack]
    rfl

variable (headed : Headed code buffer code' old place)

include headed

theorem Headed.handled : ∀ handler ∈ code.handlers, old.IsBoundary handler.target.toNat := by
  intro handler member
  obtain ⟨moved, _, each⟩ := headed.handlers
  obtain ⟨_, _, boundary, _⟩ := forall₂_mem_right each.flip member
  exact boundary

theorem Headed.runs (run : Runs buffer.bytes 0 snippet.entries.toList buffer.pc) :
    Runs code'.bytes 0 snippet.entries.toList buffer.pc := by
  refine run.transfer fun i _ inside => ?_
  have held := headed.head.getElem? (show i < buffer.bytes.toList.length by simpa [Buffer.pc] using inside)
  rwa [Nat.zero_add, Array.getElem?_toList] at held

theorem Headed.raised_start {shift : Int} :
    Code.raised place shift [(0, 0)] = [(buffer.pc, shift)] := by
  simp [Code.raised, headed.first]

theorem Headed.level_le {roots : List (Nat × Int)} {shift : Int} {here : Nat} {level : Int}
    (extended : Pool.Extended before pool) (sound : before.Sound)
    (steady : Steady before code old depth) (among : roots ⊆ code.entrances)
    (below : ∀ entry ∈ old.entries, Comes old.entries.toList (roots.map Prod.fst) entry.1 →
      depth entry.1 + shift ≤ code'.maxStack.toNat)
    (arrives : Arrives pool code'.bytes (Code.raised place shift roots) here level)
    (inside : here < code'.bytes.size) : level ≤ code'.maxStack.toNat := by
  have aimed := headed.planted.aimed
  have rooted : ∀ root ∈ roots, old.IsBoundary root.1 := fun root member =>
    Code.isBoundary_of_mem_entrances headed.decoded headed.handled root (among member)
  have mirrored := headed.planted.mirrored headed.decoded rooted extended sound
    (fun entry member comes => steady.measured entry member (comes.of_entrances among)) arrives
  refine mirrored.le headed.decoded headed.planted rooted inside fun entry member level arrives => ?_
  rw [← steady.depth_eq headed.decoded aimed headed.handled (arrives.mono among) member]
  exact below entry member (arrives.comes headed.decoded aimed rooted)

theorem Headed.bounded (extended : Pool.Extended before pool) (sound : before.Sound)
    (bare : buffer.handlers = []) (run : Runs buffer.bytes 0 snippet.entries.toList buffer.pc)
    (straight : Straight pool buffer.maxStack 0 snippet.entries.toList buffer.depth)
    (steady : Steady before code old depth)
    (below : (∀ entry ∈ snippet.entries, entry.2.instruction.fallsThrough = true) →
      ∀ entry ∈ old.entries, Comes old.entries.toList [0] entry.1 →
        depth entry.1 + buffer.depth ≤ code'.maxStack.toNat) :
    Bounded pool code' := by
  intro here level arrives inside
  have limits := headed.maxStack
  obtain ⟨root, member, arrives⟩ := arrives.exists_root
  rcases List.mem_cons.1 member with rfl | caught
  -- From the first offset control is still in the snippet, or runs on into the body.
  · rcases straight.arrives (headed.runs run) arrives with low | ⟨through, arrives⟩
    · omega
    · have below := below fun entry member => through entry (Array.mem_toList_iff.2 member)
      rw [← headed.raised_start] at arrives
      exact headed.level_le extended sound steady code.start_subset_entrances below arrives inside
  -- The snippet has no handlers, so what catches an exception is a moved handler, with one value.
  · obtain ⟨moved, same, each⟩ := headed.handlers
    rw [same, bare, List.nil_append] at caught
    obtain ⟨handler, among, rfl⟩ := List.mem_map.1 caught
    obtain ⟨handler', known, _, target⟩ := forall₂_mem_right each among
    have there : Code.raised place 0 [(handler'.target.toNat, 1)] = [(handler.target.toNat, 1)] := by
      simp [Code.raised, target]
    rw [← there] at arrives
    have entrance : [(handler'.target.toNat, 1)] ⊆ code.entrances :=
      List.cons_subset.2 ⟨List.mem_cons_of_mem _ (List.mem_map.2 ⟨handler', known, rfl⟩),
        List.nil_subset _⟩
    refine headed.level_le extended sound steady entrance (fun entry member comes => ?_) arrives inside
    have := steady.bounded entry member (comes.of_entrances entrance)
    omega

theorem Headed.below_of_bounded (extended : Pool.Extended before pool) (sound : before.Sound)
    (run : Runs buffer.bytes 0 snippet.entries.toList buffer.pc)
    (straight : Straight pool buffer.maxStack 0 snippet.entries.toList buffer.depth)
    (steady : Steady before code old depth) (bounded : Bounded pool code')
    (through : ∀ entry ∈ snippet.entries, entry.2.instruction.fallsThrough = true) :
    ∀ entry ∈ old.entries, Comes old.entries.toList [0] entry.1 →
      depth entry.1 + buffer.depth ≤ code'.maxStack.toNat := by
  intro entry member comes
  have entrance := code.start_subset_entrances
  have comes : Comes old.entries.toList ([(0, (0 : Int))].map Prod.fst) entry.1 := comes
  obtain ⟨level, arrives⟩ := comes.arrives headed.decoded fun other member comes =>
    steady.measured other member (comes.of_entrances entrance)
  have aimed := headed.planted.aimed
  rw [steady.depth_eq headed.decoded aimed headed.handled (arrives.mono entrance) member]
  have rooted : ∀ root ∈ [(0, (0 : Int))], old.IsBoundary root.1 := fun root known =>
    Code.isBoundary_of_mem_entrances headed.decoded headed.handled root (entrance known)
  have moved : Arrives pool code'.bytes (Code.raised place buffer.depth [(0, 0)]) _ _ :=
    headed.planted.arrives headed.decoded rooted extended sound arrives
  rw [headed.raised_start] at moved
  have front := straight.runs_through (headed.runs run) fun entry member =>
    through entry (Array.mem_toList_iff.1 member)
  exact bounded _ _ ((front.through moved).mono code'.start_subset_entrances) (headed.planted.place_lt member)

end Headed

theorem insertBefore_eq_ok {editor editor' : Editor} {index : Nat} {source : String}
    (done : outcome (insertBefore assemble index source) editor = (.ok (), editor')) :
    ∃ context code code' scope buffer pool old place,
      outcome (contextAt index) editor = (.ok context, editor) ∧
      outcome (assemble source (context.scope (.empty 0 0)).1 (context.scope (.empty 0 0)).2)
        editor.file.pool = (.ok (scope, buffer), pool) ∧
      Replaced editor editor' index code code' pool ∧ Headed code buffer code' old place := by
  obtain ⟨context, code, code', pool, known, edited, replaced⟩ := insertBefore_replaced done
  obtain ⟨scope, buffer, limited, start, cursor, cursor', assembled, raised, inserted, prepended, rfl⟩ :=
    outcome_withPrologue_eq_ok.1 edited
  obtain ⟨old, place, headed⟩ := headed_of_insert raised inserted prepended
  exact ⟨context, code, cursor'.code, scope, buffer, _, old, place, known, assembled, replaced, headed⟩

/-- Let a body have one depth at each instruction, and none above its limit. With code without labels
in front of it, the new limit holds just if it holds for the old depths on top of what that code leaves
on the stack, or if control does not run through it. -/
theorem insertBefore_bounded_iff {editor editor' : Editor} {index : Nat} {source : String}
    {sources : List Assembler.Statement} (sound : editor.file.pool.Sound)
    (split : Assembler.statements source = .ok sources)
    (unlabelled : ∀ source ∈ sources, source.labels = [])
    (done : outcome (insertBefore assemble index source) editor = (.ok (), editor')) :
    ∃ context code code' scope buffer pool old snippet,
      outcome (contextAt index) editor = (.ok context, editor) ∧
      outcome (assemble source (context.scope (.empty 0 0)).1 (context.scope (.empty 0 0)).2)
        editor.file.pool = (.ok (scope, buffer), pool) ∧
      Replaced editor editor' index code code' pool ∧
      Listing.decode code.bytes = .ok old ∧ Listing.decode buffer.bytes = .ok snippet ∧
      code'.maxStack.toNat = max code.maxStack.toNat buffer.maxStack ∧
      ∀ depth, Steady editor.file.pool code old depth →
        (Bounded pool code' ↔
          ((∀ entry ∈ snippet.entries, entry.2.instruction.fallsThrough = true) →
            ∀ entry ∈ old.entries, Comes old.entries.toList [0] entry.1 →
              depth entry.1 + buffer.depth ≤ code'.maxStack.toNat)) ∧
        (buffer.depth ≤ 0 → Bounded pool code') := by
  obtain ⟨context, code, code', scope, buffer, pool, old, place, known, assembled, replaced, headed⟩ :=
    insertBefore_eq_ok done
  have extended := (Assembler.appends_assemble source (context.scope (.empty 0 0)).1
    (context.scope (.empty 0 0)).2).extended assembled
  obtain ⟨slots, same⟩ := exists_scope_eq context (.empty 0 0)
  have small : buffer.pc ≤ 2147483647 := by
    have inside := headed.head.le_size
    have bounded : code'.bytes.size ≤ 65535 := headed.small
    rw [Array.length_toList] at inside
    show buffer.bytes.size ≤ _
    omega
  have straight := Assembler.assemble_straight (by rw [same]; rfl) (by rw [same]; rfl)
    (by rw [same]; exact Int.le_refl 0) sound split unlabelled assembled small
  obtain ⟨snippet, decoded, run, straight, bare⟩ := straight
  have start : (context.scope (.empty 0 0)).2.depth = 0 := by rw [same]; rfl
  rw [start] at straight
  refine ⟨context, code, code', scope, buffer, pool, old, snippet, known, assembled, replaced,
    headed.decoded, decoded, headed.maxStack, fun depth steady => ⟨⟨fun bounded through => ?_,
      fun below => ?_⟩, fun level => ?_⟩⟩
  · exact headed.below_of_bounded extended sound run straight steady bounded through
  · exact headed.bounded extended sound bare run straight steady below
  · refine headed.bounded extended sound bare run straight steady fun _ entry member comes => ?_
    have := steady.bounded entry member (comes.mono (by simp))
    have := headed.maxStack
    omega

def pushBody : Code :=
  ⟨1, 0, #[0x03, 0x57, 0xb1], [], []⟩

def pushListing : Listing :=
  ⟨#[(0, ⟨1, .plain [0x03]⟩), (1, ⟨1, .plain [0x57]⟩), (2, ⟨1, .plain [0xb1]⟩)], 3⟩

theorem stackEffect?_pushListing {pool : Pool} :
    (Code.Instruction.plain [0x03]).stackEffect? pool = some 1 ∧
      (Code.Instruction.plain [0x57]).stackEffect? pool = some (-1) ∧
      (Code.Instruction.plain [0xb1]).stackEffect? pool = some 0 := by
  have steady {opcode : Code.Opcode} (narrow : opcode ≠ Code.Opcode.wide)
      (steady : opcode.hasVariableGrowth = false) :
      (Code.Instruction.plain [opcode]).stackEffect? pool = some opcode.growth := by
    show Code.plainEffect? pool [opcode] = _
    exact Code.plainEffect?_steady narrow steady
  have push : Code.Opcode.growth 0x03 = 1 := by decide +kernel
  have pop : Code.Opcode.growth 0x57 = -1 := by decide +kernel
  have return' : Code.Opcode.growth 0xb1 = 0 := by decide +kernel
  rw [steady (by decide) (by decide +kernel), steady (by decide) (by decide +kernel),
    steady (by decide) (by decide +kernel), push, pop, return']
  exact ⟨rfl, rfl, rfl⟩

theorem steady_pushBody (pool : Pool) :
    Steady pool pushBody pushListing fun pos => if pos = 1 then 1 else 0 := by
  obtain ⟨push, pop, last⟩ := @stackEffect?_pushListing pool
  have listed {entry : Nat × Code.Located} (member : entry ∈ pushListing.entries) :
      entry = (0, ⟨1, .plain [0x03]⟩) ∨ entry = (1, ⟨1, .plain [0x57]⟩) ∨
        entry = (2, ⟨1, .plain [0xb1]⟩) := by
    simpa [pushListing] using member
  refine ⟨⟨rfl, nofun, fun _ member measured _ _ => ?_, fun _ member _ named _ => ?_⟩,
    fun entry member _ => ?_, fun entry member _ => ?_⟩
  · rcases listed (Array.mem_toList_iff.1 member) with same | same | same <;> cases same
    · cases push.symm.trans measured
      rfl
    · cases pop.symm.trans measured
      rfl
    · cases last.symm.trans measured
      rfl
  · rcases listed (Array.mem_toList_iff.1 member) with same | same | same <;> cases same <;> cases named
  · rcases listed member with rfl | rfl | rfl
    · rw [push]
      rfl
    · rw [pop]
      rfl
    · rw [last]
      rfl
  · rcases listed member with rfl | rfl | rfl <;> decide

theorem bare_iconst0 : Assembler.Bare "iconst_0" 0x03 := by
  have split : Assembler.statements "iconst_0" = .ok [⟨1, [.word "iconst_0"]⟩] := by cbv
  have unplaced : Assembler.placedLabel? "iconst_0" = none := by cbv
  have known : Code.Opcode.ofMnemonic? "iconst_0" = some 0x03 := by cbv
  refine ⟨split, unplaced, ?_⟩
  unfold Assembler.instruction
  simp only [known]
  rfl

set_option maxRecDepth 4000 in
theorem insertBefore_bounded_iff_push :
    ∃ editor', outcome (insertBefore assemble 0 "iconst_0") (smallClass pushBody) = (.ok (), editor') ∧
      ∃ code' pool, Replaced (smallClass pushBody) editor' 0 pushBody code' pool ∧
        ¬ Bounded pool code' := by
  have parsed : Code.parse pushBody.write smallPool = .ok pushBody := rfl
  have edited : ∃ editor', outcome (insertBefore assemble 0 "iconst_0") (smallClass pushBody) =
      (.ok (), editor') := by
    have inserted : (Cursor.start pushBody).insert 0 [0x03] true =
        .ok (0, ⟨⟨1, 0, #[0x03, 0x03, 0x57, 0xb1], [], []⟩, 1⟩) := by
      cbv
    have sound : checkBody ⟨1, 0, #[0x03, 0x03, 0x57, 0xb1], [], []⟩ ⟨50, 0⟩ = .ok () := by
      cbv
    exact exists_insertBefore_smallClass parsed (bare_iconst0.assembled (by decide +kernel)) rfl
      inserted rfl sound
  obtain ⟨editor', done⟩ := edited
  have sound : (smallClass pushBody).file.pool.Sound := Pool.sound_foldl_push Pool.sound_empty (by decide)
  have unlabelled : ∀ source ∈ [Assembler.Statement.mk 1 [.word "iconst_0"]], source.labels = [] := by
    decide +kernel
  obtain ⟨_, _, code', _, buffer, pool, _, snippet, known, assembled, replaced, decoded, decoded',
    maxStack, limits⟩ := insertBefore_bounded_iff sound bare_iconst0.split unlabelled done
  obtain rfl := replaced_smallClass parsed replaced
  cases known.symm.trans (contextAt_smallClass _)
  cases assembled.symm.trans (bare_iconst0.assembled (by decide +kernel))
  refine ⟨editor', done, code', _, replaced, fun bounded => ?_⟩
  have listed : Listing.decode pushBody.bytes = .ok pushListing := by cbv
  have short : Listing.decode #[0x03] = .ok ⟨#[(0, ⟨1, .plain [0x03]⟩)], 1⟩ := by cbv
  cases decoded.symm.trans listed
  cases decoded'.symm.trans short
  have through : ∀ entry ∈ (#[(0, ⟨1, .plain [0x03]⟩)] : Array (Nat × Code.Located)),
      entry.2.instruction.fallsThrough = true := by
    decide +kernel
  have comes : Comes pushListing.entries.toList [0] 1 :=
    .next (.root List.mem_cons_self) List.mem_cons_self (by decide +kernel)
  have below := (limits _ (steady_pushBody _)).1.1 bounded through (1, ⟨1, .plain [0x57]⟩)
    (by simp [pushListing]) comes
  rw [maxStack] at below
  exact absurd below (by decide +kernel)

end ClassSplice.Edit
