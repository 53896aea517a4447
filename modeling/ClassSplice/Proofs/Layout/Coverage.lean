import ClassSplice.Proofs.Code.DebugTables
import ClassSplice.Proofs.Layout.Sequence

/-!
Ranges of code behind the opening of a gap. A range holds the image of an instruction if it held the
instruction, and the gap if it held the place in front of which the gap was opened: for an inclusive
gap the instruction behind it, for an exclusive one the instruction in front of it or a later end.

Main statement: `insertGap_keeps_ranges` (so it is for exception handlers and for the ranges of local
variables, and the lines of the source go where their offsets go).
-/

namespace ClassSplice.Code

def LocalRange.covers (row : LocalRange) (pc : Nat) : Bool :=
  row.start.toNat ≤ pc && pc < row.start.toNat + row.length.toNat

/-- What a range from `first` to `last` of the old code covers, and what it covers once it has moved. -/
structure Relocation.Keeps (moved : Relocation) (old : Listing) (first last : Nat)
    (covers covers' : Nat → Bool) : Prop where
  image : ∀ {pos : Nat} {located : Located}, (pos, located) ∈ old.entries → ∀ here,
    moved.place pos ≤ here → here < moved.enter (pos + located.length) → covers' here = covers pos
  gap : ∀ here, moved.start ≤ here → here < moved.start + moved.gap.length →
    (covers' here = true ↔ if moved.gap.exclusive then first < moved.gap.offset ∧ moved.gap.offset ≤ last
      else first ≤ moved.gap.offset ∧ moved.gap.offset < last)

section Opened

variable {old : Listing} {moved : Relocation} {code code' : Array UInt8} {pos bound : Nat}

theorem Opened.land_le_place (opened : Opened old moved code) (pos : Nat) :
    moved.land pos ≤ moved.place pos := by
  rw [Relocation.land]
  split
  · rename_i here
    rw [here.1, opened.behind]
    exact Nat.le_add_right _ _
  · exact Nat.le_refl _

theorem Opened.enter_le_land (opened : Opened old moved code) (pos : Nat) :
    moved.enter pos ≤ moved.land pos := by
  rw [Relocation.enter, Relocation.land]
  split
  · rename_i here
    split
    · exact Nat.le_refl _
    · rw [here, opened.behind]
      exact Nat.le_add_right _ _
  · rename_i elsewhere
    rw [if_neg fun both => elsewhere both.1]

theorem Opened.land_lt_land (opened : Opened old moved code) {pos' : Nat}
    (boundary : old.IsBoundary pos) (boundary' : old.IsBoundary pos') (less : pos < pos') :
    moved.land pos < moved.land pos' :=
  Nat.lt_of_le_of_lt (opened.land_le_place pos)
    (Nat.lt_of_lt_of_le (opened.ordered boundary boundary' less) (opened.enter_le_land pos'))

theorem Opened.land_le_iff (opened : Opened old moved code)
    (decoded : Listing.decode code' = .ok old) {located : Located}
    (member : (pos, located) ∈ old.entries) (boundary : old.IsBoundary bound) {here : Nat}
    (low : moved.place pos ≤ here) (high : here < moved.enter (pos + located.length)) :
    moved.land bound ≤ here ↔ bound ≤ pos := by
  have start : old.IsBoundary pos := .inr ⟨located, member⟩
  constructor
  · intro reached
    by_contra further
    have behind := behind_le_of_lt decoded member boundary (Nat.lt_of_not_le further)
    have entered : moved.enter (pos + located.length) ≤ moved.land bound := by
      rcases Nat.lt_or_eq_of_le behind with less | same
      · have next := isBoundary_behind decoded member
        have := opened.enter_le_land (pos + located.length)
        have := opened.land_lt_land next boundary less
        omega
      · rw [same]
        exact opened.enter_le_land bound
    omega
  · intro before
    rcases Nat.lt_or_eq_of_le before with less | rfl
    · have := opened.land_lt_land boundary start less
      have := opened.land_le_place pos
      omega
    · exact Nat.le_trans (opened.land_le_place bound) low

theorem Opened.land_le_gap_iff (opened : Opened old moved code) (boundary : old.IsBoundary bound)
    {here : Nat} (low : moved.start ≤ here) (high : here < moved.start + moved.gap.length) :
    moved.land bound ≤ here ↔
      if moved.gap.exclusive then bound < moved.gap.offset else bound ≤ moved.gap.offset := by
  have own : moved.enter moved.gap.offset = moved.start := if_pos rfl
  rcases Nat.lt_trichotomy bound moved.gap.offset with less | rfl | greater
  · have := opened.ordered boundary opened.boundary less
    have := opened.land_le_place bound
    have reached : moved.land bound ≤ here := by omega
    split
    · exact iff_of_true reached less
    · exact iff_of_true reached (Nat.le_of_lt less)
  · rw [Relocation.land, opened.behind]
    cases moved.gap.exclusive with
    | true => simpa using high
    | false => simpa using low
  · have := opened.ordered opened.boundary boundary greater
    have := opened.enter_le_land bound
    have := opened.behind
    have beyond : ¬ moved.land bound ≤ here := by omega
    split
    · exact iff_of_false beyond (Nat.not_lt_of_gt greater)
    · exact iff_of_false beyond (Nat.not_le_of_gt greater)

theorem Opened.keeps (opened : Opened old moved code) (decoded : Listing.decode code' = .ok old)
    {first last : Nat} (start : old.IsBoundary first) (stop : old.IsBoundary last)
    {covers covers' : Nat → Bool}
    (range : ∀ pc, covers pc = true ↔ first ≤ pc ∧ pc < last)
    (range' : ∀ pc, covers' pc = true ↔ moved.land first ≤ pc ∧ pc < moved.land last) :
    moved.Keeps old first last covers covers' := by
  constructor
  · intro pos located member here low high
    have left := opened.land_le_iff decoded member start low high
    have right := opened.land_le_iff decoded member stop low high
    rw [Bool.eq_iff_iff, range, range']
    omega
  · intro here low high
    have left := opened.land_le_gap_iff start low high
    have right := opened.land_le_gap_iff stop low high
    rw [range']
    split
    · rename_i exclusive
      rw [if_pos exclusive] at left right
      omega
    · rename_i inclusive
      rw [if_neg inclusive] at left right
      omega

end Opened

/-- An entry of the exception table that protects what it protected, and is handled where it was. -/
structure Handler.Kept (old : Listing) (moved : Relocation) (before after : Handler) : Prop where
  catchType : after.catchType = before.catchType
  target : after.target.toNat = moved.land before.target.toNat
  keeps : moved.Keeps old before.start.toNat before.stop.toNat before.covers after.covers

structure LineNumber.Kept (old : Listing) (moved : Relocation) (before after : LineNumber) :
    Prop where
  boundary : old.IsBoundary before.start.toNat
  start : after.start.toNat = moved.land before.start.toNat
  line : after.line = before.line

structure LocalRange.Kept (old : Listing) (moved : Relocation) (before after : LocalRange) :
    Prop where
  name : after.name = before.name
  descriptor : after.descriptor = before.descriptor
  slot : after.slot = before.slot
  keeps : moved.Keeps old before.start.toNat (before.start.toNat + before.length.toNat) before.covers
    after.covers

section Tables

variable {layout : Layout} {code out : Array UInt8}

theorem Layout.Computed.handler_kept (computed : layout.Computed code)
    (opened : Opened layout.listing layout.relocation out) {before after : Handler}
    (moved : before.relocate layout.relocate = .ok after) :
    before.Kept layout.listing layout.relocation after := by
  obtain ⟨start, stop, target, first, last, goal, spans, catchType⟩ :=
    Handler.relocate_eq_ok.1 moved
  obtain ⟨inStart, rfl⟩ := computed.relocate_iff.1 first
  obtain ⟨inStop, rfl⟩ := computed.relocate_iff.1 last
  obtain ⟨_, rfl⟩ := computed.relocate_iff.1 goal
  refine ⟨catchType, spans.target, opened.keeps computed.decoded inStart inStop ?_ ?_⟩
  · simp [Handler.covers]
  · simp [Handler.covers, spans.start, spans.stop]

theorem Layout.Computed.line_kept (computed : layout.Computed code) {before after : LineNumber}
    (moved : before.Moved layout.relocate after) :
    before.Kept layout.listing layout.relocation after := by
  obtain ⟨boundary, start⟩ := computed.relocate_iff.1 moved.start
  exact ⟨boundary, start, moved.line⟩

theorem Layout.Computed.range_kept (computed : layout.Computed code)
    (opened : Opened layout.listing layout.relocation out) {before after : LocalRange}
    (moved : before.Moved layout.relocate after) :
    before.Kept layout.listing layout.relocation after := by
  obtain ⟨⟨stop, first, last, length⟩, name, descriptor, slot⟩ := moved
  obtain ⟨inStart, start⟩ := computed.relocate_iff.1 first
  obtain ⟨inStop, rfl⟩ := computed.relocate_iff.1 last
  -- The end does not fall behind the start, so that the length is their distance.
  have ordered : layout.relocation.land before.start.toNat ≤
      layout.relocation.land (before.start.toNat + before.length.toNat) := by
    rcases Nat.eq_zero_or_pos before.length.toNat with empty | positive
    · rw [empty, Nat.add_zero]
    · exact Nat.le_of_lt (opened.land_lt_land inStart inStop (Nat.lt_add_of_pos_right positive))
  have whole : after.start.toNat + after.length.toNat =
      layout.relocation.land (before.start.toNat + before.length.toNat) := by
    rw [length, start, Nat.add_sub_cancel' ordered]
  refine ⟨name, descriptor, slot, opened.keeps computed.decoded inStart inStop ?_ ?_⟩
  · simp [LocalRange.covers]
  · intro pc
    rw [LocalRange.covers, whole, start]
    simp

end Tables

namespace Cursor

/-- Exception handlers and local variables cover the same instructions behind the opening of a gap,
and the gap as its place was covered; lines of the source move along. -/
theorem insertGap_keeps_ranges {cursor next : Cursor} {gap : Gap} {start : Nat}
    (inserted : cursor.insertGap gap = .ok (start, next)) :
    ∃ old place, Listing.decode cursor.code.bytes = .ok old ∧
      Code.Opened old ⟨gap, start, place⟩ next.code.bytes ∧
      List.Forall₂ (Handler.Kept old ⟨gap, start, place⟩) cursor.code.handlers next.code.handlers ∧
      List.Forall₂ (BodyAttribute.Rowwise (LineNumber.Kept old ⟨gap, start, place⟩)
        (LocalRange.Kept old ⟨gap, start, place⟩)) cursor.code.attributes next.code.attributes := by
  obtain ⟨layout, stages, rfl⟩ := insertGap_eq_ok.1 inserted
  obtain ⟨computed, rfl⟩ := Layout.computed_of_compute stages.computed
  have opened := computed.opened stages.bytes
  refine ⟨layout.listing, layout.relocation.place, computed.decoded, opened, ?_, ?_⟩
  · exact (HandlerTable.relocate_eq_ok.1 stages.handlers).imp fun _ _ moved =>
      computed.handler_kept opened moved
  · refine (changeAll_eq_none.1 stages.attributes).imp fun _ _ moved => ?_
    exact (BodyAttribute.relocate_eq.1 moved).imp (fun _ _ => computed.line_kept)
      fun _ _ => computed.range_kept opened

def guardedLoop : Cursor :=
  start ⟨1, 1, #[0x1a, 0x99, 0xff, 0xff, 0xb1], [⟨1, 4, 4, 0⟩],
    [.lines 1 [⟨0, 6⟩, ⟨1, 7⟩], .locals 2 [⟨0, 1, 3, 4, 0⟩]]⟩

set_option maxRecDepth 4000 in
theorem insertGap_keeps_ranges_loop :
    ∃ next, guardedLoop.insertGap ⟨1, 2, false⟩ = .ok (1, next) ∧
      ∃ handler, next.code.handlers = [handler] ∧ handler.covers 0 = false ∧
        handler.covers 1 = true ∧ handler.covers 2 = true := by
  have inserted : guardedLoop.insertGap ⟨1, 2, false⟩ =
      .ok (1, ⟨⟨1, 1, #[0x1a, 0x00, 0x00, 0x99, 0xff, 0xfd, 0xb1], [⟨1, 6, 6, 0⟩],
        [.lines 1 [⟨0, 6⟩, ⟨1, 7⟩], .locals 2 [⟨0, 1, 3, 4, 0⟩]]⟩, 0⟩) := by
    cbv
  obtain ⟨old, place, _, _, handlers, _⟩ := insertGap_keeps_ranges inserted
  obtain _ | ⟨kept, _⟩ := handlers
  have gap (here : Nat) (low : 1 ≤ here) (high : here < 3) :
      (Handler.mk 1 6 6 0).covers here = true :=
    (kept.keeps.gap here low high).2 (show 1 ≤ 1 ∧ 1 < 4 by decide)
  exact ⟨_, inserted, _, rfl, rfl, gap 1 (by decide) (by decide), gap 2 (by decide) (by decide)⟩

end Cursor
end ClassSplice.Code
