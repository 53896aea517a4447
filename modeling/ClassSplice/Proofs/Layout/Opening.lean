import ClassSplice.Code.Cursor
import ClassSplice.Proofs.Code.HandlerTable
import ClassSplice.Proofs.Layout.Emission

namespace ClassSplice.Code

/-- Where the places of a body are moved by a gap that is opened at `start`. -/
structure Relocation where
  gap : Gap
  start : Nat
  place : Nat → Nat

namespace Relocation

/-- Where control comes that runs on to a place. -/
def enter (moved : Relocation) (pos : Nat) : Nat :=
  if pos = moved.gap.offset then moved.start else moved.place pos

/-- Where a jump to a place lands. -/
def land (moved : Relocation) (pos : Nat) : Nat :=
  if pos = moved.gap.offset ∧ moved.gap.exclusive = false then moved.start else moved.place pos

def Lands (moved : Relocation) (old : Listing) (target landed : Int) : Prop :=
  ∃ pos : Nat, old.IsBoundary pos ∧ target = pos ∧ landed = moved.land pos

end Relocation

structure Opened (old : Listing) (moved : Relocation) (code : Array UInt8) : Prop where
  boundary : old.IsBoundary moved.gap.offset
  behind : moved.place moved.gap.offset = moved.start + moved.gap.length
  first : moved.enter 0 = 0
  stop : moved.place old.next = code.size
  ordered : ∀ {pos pos' : Nat}, old.IsBoundary pos → old.IsBoundary pos' → pos < pos' →
    moved.place pos < moved.enter pos'
  forward : ∀ {pos : Nat}, old.IsBoundary pos → pos ≤ moved.enter pos
  gap : Holds code moved.start (List.replicate moved.gap.length Opcode.nop)
  image : ∀ {pos : Nat} {located : Located}, (pos, located) ∈ old.entries →
    ∃ image, Image (moved.Lands old) (moved.place pos) located.instruction image ∧
      Runs code (moved.place pos) image (moved.enter (pos + located.length))
  /-- A branch over the jump behind it is not widened, so it stays one. -/
  skip : moved.gap.exclusive = false → ∀ {pos : Nat} {opcode jump : Opcode} {target : Int},
    (pos, ⟨3, .branch opcode (pos + 8)⟩) ∈ old.entries →
      (pos + 3, ⟨5, .wideBranch jump target⟩) ∈ old.entries → moved.gap.offset ≠ pos + 3 →
      Runs code (moved.place pos) [(moved.place pos, ⟨3, .branch opcode (moved.place pos + 8)⟩)]
        (moved.enter (pos + 3))

theorem Image.eq_of_short {Lands : Int → Int → Prop} {code : Array UInt8} {pos : Nat}
    {opcode : Opcode} {target landed : Int} {image : List (Nat × Located)}
    (is : Image Lands pos (.branch opcode target) image) (run : Runs code pos image (pos + 3))
    (lands : ∀ moved, Lands target moved → moved = landed) :
    image = [(pos, ⟨3, .branch opcode landed⟩)] := by
  cases is with
  | branch moves => rw [lands _ moves]
  | goto | jsr =>
      cases run with
      | step reads rest =>
          have := rest.le
          dsimp only at this
          omega
  | conditional =>
      cases run with
      | step reads rest =>
          have := rest.lt (List.cons_ne_nil _ _)
          dsimp only at this
          omega

theorem Image.ne_nil {Lands : Int → Int → Prop} {pos : Nat} {instruction : Instruction}
    {image : List (Nat × Located)} (is : Image Lands pos instruction image) : image ≠ [] := by
  cases is <;> exact List.cons_ne_nil _ _

namespace Layout

variable {layout : Layout} {code : Array UInt8} {pos index : Nat}

def relocation (layout : Layout) : Relocation where
  gap := layout.gap
  start := layout.gapStart
  place pos :=
    match layout.listing.indexAt pos with
    | .ok index => layout.start index
    | .error _ => 0

theorem place_eq (found : layout.listing.indexAt pos = .ok index) :
    layout.relocation.place pos = layout.start index := by
  simp only [relocation, found]

namespace Computed

variable (computed : layout.Computed code)

include computed

theorem start_eq : layout.relocation.start = layout.arrival layout.gapIndex :=
  gapStart_eq computed.placed (computed.index_le computed.gapIndex)

theorem enter_eq (found : layout.listing.indexAt pos = .ok index) :
    layout.relocation.enter pos = layout.arrival index := by
  rw [Relocation.enter]
  split
  · rename_i here
    have same : pos = layout.gap.offset := here
    rw [same, computed.gapIndex] at found
    rw [computed.start_eq, Except.ok.inj found]
  · rename_i elsewhere
    have different : index ≠ layout.gapIndex := by
      rintro rfl
      exact elsewhere (indexAt_inj computed.decoded found computed.gapIndex)
    rw [place_eq found, start_of_ne different]

theorem relocate_iff {old new : Nat} :
    layout.relocate old = .ok new ↔
      layout.listing.IsBoundary old ∧ new = layout.relocation.land old := by
  rw [computed.relocate_eq_ok, isBoundary_iff computed.decoded]
  have landed {index : Nat} (found : layout.listing.indexAt old = .ok index) :
      layout.relocation.land old =
        if old = layout.gap.offset ∧ layout.gap.exclusive = false then layout.arrival index
        else layout.start index := by
    rw [Relocation.land, place_eq found]
    by_cases here : old = layout.gap.offset
    · have arrived : layout.relocation.start = layout.arrival index :=
        (if_pos here).symm.trans (computed.enter_eq found)
      rw [arrived]
      rfl
    · rw [if_neg fun both => here both.1, if_neg fun both => here both.1]
  constructor
  · rintro ⟨index, found, rfl⟩
    exact ⟨⟨index, found⟩, (landed found).symm⟩
  · rintro ⟨⟨index, found⟩, rfl⟩
    exact ⟨index, found, landed found⟩

theorem lands_iff {target moved : Int} :
    layout.Lands target moved ↔ layout.relocation.Lands layout.listing target moved := by
  constructor
  · rintro ⟨old, new, rfl, relocated, rfl⟩
    obtain ⟨boundary, rfl⟩ := computed.relocate_iff.1 relocated
    exact ⟨old, boundary, rfl, rfl⟩
  · rintro ⟨old, boundary, rfl, rfl⟩
    exact ⟨old, _, rfl, computed.relocate_iff.2 ⟨boundary, rfl⟩, rfl⟩

theorem runs_skip {out : Array UInt8} (emitted : layout.emit = .ok out) {opcode jump : Opcode}
    {target : Int} (near : layout.gap.exclusive = true → layout.gap.offset ≠ pos + 8)
    (first : (pos, ⟨3, .branch opcode (pos + 8)⟩) ∈ layout.listing.entries)
    (second : (pos + 3, ⟨5, .wideBranch jump target⟩) ∈ layout.listing.entries)
    (away : layout.gap.offset ≠ pos + 3) :
    Runs out (layout.relocation.place pos)
      [(layout.relocation.place pos, ⟨3, .branch opcode (layout.relocation.place pos + 8)⟩)]
      (layout.relocation.enter (pos + 3)) := by
  obtain ⟨_, written⟩ := computed.emit_written emitted
  obtain ⟨index, known⟩ := Array.mem_iff_getElem?.1 first
  obtain ⟨index', behind⟩ := Array.mem_iff_getElem?.1 second
  have found := (indexAt_eq_ok computed.decoded).2 (.inr ⟨_, known⟩)
  have next := indexAt_behind computed.decoded known
  have found' := (indexAt_eq_ok computed.decoded).2 (.inr ⟨_, behind⟩)
  cases next.symm.trans found'
  have apart : index + 1 ≠ layout.gapIndex := by
    intro same
    rw [same] at next
    exact away (indexAt_inj computed.decoded computed.gapIndex next)
  have skips : Skips layout.listing index pos opcode := ⟨known, jump, target, behind⟩
  have narrow := computed.settled.narrow skips near apart
  have landed := computed.placed.relocate_skip computed.decoded computed.gapIndex skips near narrow
    apart
  obtain ⟨image, is, run⟩ := written.image (Array.getElem?_eq_some_iff.1 known).1 known
  have short : layout.arrival (index + 1) = layout.start index + 3 := by
    rw [arrival_succ known, narrow]
    rfl
  have stays : image = [(layout.start index, ⟨3, .branch opcode (layout.start index + 8)⟩)] :=
    is.eq_of_short (short ▸ run) fun moved ⟨old, new, same, relocated, moves⟩ => by
      obtain rfl : old = pos + 8 := by omega
      cases relocated.symm.trans landed
      exact moves
  rw [place_eq found, computed.enter_eq next, ← stays]
  exact run

theorem opened {out : Array UInt8} (emitted : layout.emit = .ok out) :
    Opened layout.listing layout.relocation out := by
  obtain ⟨size, written⟩ := computed.emit_written emitted
  have gapRange := computed.index_le computed.gapIndex
  refine ⟨?_, ?_, ?_, ?_, ?_, ?_, ?_, ?_, ?_⟩
  · exact (isBoundary_iff computed.decoded).2 ⟨_, computed.gapIndex⟩
  · rw [computed.start_eq]
    exact (place_eq computed.gapIndex).trans start_gapIndex
  · exact computed.enter_eq (indexAt_zero computed.decoded)
  · have found := (indexAt_eq_ok computed.decoded).2 (.inl ⟨rfl, rfl⟩)
    rw [place_eq found, size, computed.placed.length]
    rfl
  · intro pos pos' boundary boundary' less
    obtain ⟨index, found⟩ := (isBoundary_iff computed.decoded).1 boundary
    obtain ⟨index', found'⟩ := (isBoundary_iff computed.decoded).1 boundary'
    rw [place_eq found, computed.enter_eq found']
    have before : index < index' := (indexAt_lt_iff computed.decoded found found').1 less
    have inRange : index < layout.listing.entries.size :=
      Nat.lt_of_lt_of_le before (computed.index_le found')
    obtain ⟨image, is, run⟩ := written.image inRange (Array.getElem?_eq_getElem inRange)
    exact Nat.lt_of_lt_of_le (run.lt is.ne_nil) (arrival_mono before)
  · intro pos boundary
    obtain ⟨index, found⟩ := (isBoundary_iff computed.decoded).1 boundary
    rw [computed.enter_eq found]
    exact le_arrival computed.decoded found
  · rw [computed.start_eq]
    exact written.gap (Nat.lt_succ_of_le gapRange)
  · intro pos located member
    obtain ⟨index, known⟩ := Array.mem_iff_getElem?.1 member
    obtain ⟨image, is, run⟩ := written.image (Array.getElem?_eq_some_iff.1 known).1 known
    have found := (indexAt_eq_ok computed.decoded).2 (.inr ⟨located, known⟩)
    rw [place_eq found, computed.enter_eq (indexAt_behind computed.decoded known)]
    exact ⟨image, is.mono fun _ _ => computed.lands_iff.1, run⟩
  · intro inclusive pos opcode jump target first second away
    have inclusive : layout.gap.exclusive = false := inclusive
    refine computed.runs_skip emitted (fun exclusive => ?_) first second away
    exact absurd (inclusive.symm.trans exclusive) Bool.false_ne_true

end Computed
end Layout

structure Handler.Moves (old : Listing) (moved : Relocation) (before after : Handler) : Prop where
  boundaries : old.IsBoundary before.start.toNat ∧ old.IsBoundary before.stop.toNat ∧
    old.IsBoundary before.target.toNat
  spans : after.Spans (moved.land before.start.toNat) (moved.land before.stop.toNat)
    (moved.land before.target.toNat)
  catchType : after.catchType = before.catchType

namespace Cursor

/-- What is known of a cursor behind the opening of a gap. -/
structure Opened (cursor next : Cursor) (old : Listing) (moved : Relocation) : Prop where
  decoded : Listing.decode cursor.code.bytes = .ok old
  code : Code.Opened old moved next.code.bytes
  handlers : List.Forall₂ (Handler.Moves old moved) cursor.code.handlers next.code.handlers
  boundary : old.IsBoundary cursor.pos
  pos : next.pos = moved.land cursor.pos
  others : ∀ {pos : Nat}, old.IsBoundary pos → (cursor.moveTo pos).insertGap moved.gap =
    .ok (moved.start, next.moveTo (moved.land pos))
  bounded : next.code.bytes.size ≤ maxLength
  maxStack : next.code.maxStack = cursor.code.maxStack
  maxLocals : next.code.maxLocals = cursor.code.maxLocals

structure Stages (cursor : Cursor) (gap : Gap) (layout : Layout) (next : Cursor) : Prop where
  computed : Layout.compute cursor.code.bytes gap = .ok layout
  bytes : layout.emit = .ok next.code.bytes
  handlers : cursor.code.handlers.relocate layout.relocate = .ok next.code.handlers
  attributes : changeAll (BodyAttribute.relocate layout.relocate) cursor.code.attributes =
    (next.code.attributes, none)
  pos : layout.relocate cursor.pos = .ok next.pos
  maxStack : next.code.maxStack = cursor.code.maxStack
  maxLocals : next.code.maxLocals = cursor.code.maxLocals

theorem insertGap_eq_ok {cursor next : Cursor} {gap : Gap} {start : Nat} :
    cursor.insertGap gap = .ok (start, next) ↔
      ∃ layout, Stages cursor gap layout next ∧ start = layout.gapStart := by
  simp only [insertGap, bind_eq_ok]
  constructor
  · rintro ⟨layout, computed, bytes, emitted, handlers, relocated, inserted⟩
    generalize debug : cursor.code.relocateDebug layout.relocate = moved at inserted
    obtain ⟨code, _ | error⟩ := moved
    · obtain ⟨rfl, none⟩ := Prod.mk.inj debug
      simp only [ok_bind, bind_eq_ok, pure_eq_ok, Prod.mk.injEq] at inserted
      obtain ⟨pos, advanced, rfl, rfl⟩ := inserted
      exact ⟨layout, ⟨computed, emitted, relocated, Prod.ext rfl none, advanced, rfl, rfl⟩, rfl⟩
    · cases inserted
  · rintro ⟨layout, stages, rfl⟩
    refine ⟨layout, stages.computed, _, stages.bytes, _, stages.handlers, ?_⟩
    obtain ⟨⟨maxStack, maxLocals, bytes, handlers, attributes⟩, pos⟩ := next
    obtain ⟨_, _, _, attributes, advanced, rfl, rfl⟩ := stages
    simp only [relocateDebug, attributes, ok_bind, advanced]
    rfl

theorem insertGap_opened {cursor next : Cursor} {gap : Gap} {start : Nat}
    (inserted : cursor.insertGap gap = .ok (start, next)) :
    ∃ old place, cursor.Opened next old ⟨gap, start, place⟩ := by
  obtain ⟨layout, stages, rfl⟩ := insertGap_eq_ok.1 inserted
  obtain ⟨known, rfl⟩ := Layout.computed_of_compute stages.computed
  obtain ⟨boundary, advanced⟩ := known.relocate_iff.1 stages.pos
  refine ⟨layout.listing, layout.relocation.place, known.decoded, known.opened stages.bytes, ?_,
    boundary, advanced, ?_, ?_, stages.maxStack, stages.maxLocals⟩
  · refine (HandlerTable.relocate_eq_ok.1 stages.handlers).imp fun before after moved => ?_
    obtain ⟨start, stop, target, first, last, goal, spans, catchType⟩ :=
      Handler.relocate_eq_ok.1 moved
    obtain ⟨inStart, rfl⟩ := known.relocate_iff.1 first
    obtain ⟨inStop, rfl⟩ := known.relocate_iff.1 last
    obtain ⟨inTarget, rfl⟩ := known.relocate_iff.1 goal
    exact ⟨⟨inStart, inStop, inTarget⟩, spans, catchType⟩
  · intro pos boundary
    have advanced : layout.relocate pos = .ok (layout.relocation.land pos) :=
      known.relocate_iff.2 ⟨boundary, rfl⟩
    exact insertGap_eq_ok.2 ⟨layout, { stages with pos := advanced }, rfl⟩
  · rw [(known.emit_written stages.bytes).1]
    exact known.settled.bounded

structure Overwritten (cursor next : Cursor) (pos : Nat) (bytes : List UInt8) : Prop where
  size : next.code.bytes.size = cursor.code.bytes.size
  held : Holds next.code.bytes pos bytes
  front : SameOn cursor.code.bytes next.code.bytes 0 pos
  back : SameOn cursor.code.bytes next.code.bytes (pos + bytes.length) cursor.code.bytes.size
  handlers : next.code.handlers = cursor.code.handlers
  maxStack : next.code.maxStack = cursor.code.maxStack
  maxLocals : next.code.maxLocals = cursor.code.maxLocals
  pos : next.pos = cursor.pos

theorem overwrite_overwritten {cursor next : Cursor} {pos : Nat} {bytes : List UInt8}
    (overwritten : cursor.overwrite pos bytes = .ok next) : cursor.Overwritten next pos bytes := by
  unfold overwrite at overwritten
  split at overwritten
  · rename_i fits
    cases overwritten
    generalize old : cursor.code.bytes = code at fits ⊢
    have split : (code.extract 0 pos ++ bytes ++ code.extract (pos + bytes.length) code.size).toList =
        code.toList.take pos ++ (bytes ++ code.toList.drop (pos + bytes.length)) := by
      simp [List.take_of_length_le]
    have front : (code.toList.take pos).length = pos := by
      rw [List.length_take, Array.length_toList]
      omega
    refine ⟨?_, ?_, ?_, ?_, rfl, rfl, rfl, rfl⟩
    · rw [← Array.length_toList, split]
      simp only [List.length_append, front, List.length_drop, Array.length_toList, old]
      omega
    · exact ⟨code.toList.take pos, code.toList.drop (pos + bytes.length),
        split.trans (List.append_assoc ..).symm, front⟩
    · intro i _ below
      rw [← Array.getElem?_toList, split, List.getElem?_append_left (by omega),
        List.getElem?_take_of_lt below, Array.getElem?_toList, old]
    · intro i behind _
      rw [← Array.getElem?_toList, split, List.getElem?_append_right (by omega), front,
        List.getElem?_append_right (by omega), List.getElem?_drop, ← Array.getElem?_toList, old]
      congr 1
      omega
  · cases overwritten

theorem insert_eq_ok {cursor next : Cursor} {offset start : Nat} {bytes : List UInt8}
    {exclusive : Bool} (inserted : cursor.insert offset bytes exclusive = .ok (start, next)) :
    ∃ middle old place, cursor.Opened middle old ⟨⟨offset, bytes.length, exclusive⟩, start, place⟩ ∧
      middle.Overwritten next start bytes := by
  obtain ⟨⟨_, middle⟩, opened, inserted⟩ := bind_eq_ok.1 inserted
  obtain ⟨_, overwritten, inserted⟩ := bind_eq_ok.1 inserted
  cases pure_eq_ok.1 inserted
  obtain ⟨old, place, opened⟩ := insertGap_opened opened
  exact ⟨middle, old, place, opened, overwrite_overwritten overwritten⟩

end Cursor
end ClassSplice.Code
