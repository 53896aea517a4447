import ClassSplice.Proofs.Layout.Image

namespace ClassSplice.Code

theorem Holds.append_right {code more : Array UInt8} {pos : Nat} {bytes : List UInt8}
    (held : Holds code pos bytes) : Holds (code ++ more) pos bytes := by
  obtain ⟨front, back, split, rfl⟩ := held
  exact ⟨front, back ++ more.toList, by simp [split], rfl⟩

theorem holds_append_size (code more : Array UInt8) : Holds (code ++ more) code.size more.toList :=
  ⟨code.toList, [], by simp, by simp⟩

def nopsFrom (pos : Nat) : Nat → List (Nat × Located)
  | 0 => []
  | count + 1 => (pos, ⟨1, .plain [Opcode.nop]⟩) :: nopsFrom (pos + 1) count

theorem reads_nop {code : Array UInt8} {pos : Nat} (held : Holds code pos [Opcode.nop]) :
    Reads code pos ⟨1, .plain [Opcode.nop]⟩ := by
  have form : Opcode.form? Opcode.nop = some (.fixed 1) := by decide +kernel
  exact reads_of_spelled (.plain (byteAt_of_holds held) (by decide) form rfl held)

theorem runs_nopsFrom {code : Array UInt8} {pos count : Nat}
    (held : Holds code pos (List.replicate count Opcode.nop)) :
    Runs code pos (nopsFrom pos count) (pos + count) := by
  induction count generalizing pos with
  | zero => exact .done pos
  | succ count ih =>
      obtain ⟨first, rest⟩ := holds_cons.1 held
      have behind : pos + (count + 1) = pos + 1 + count := by omega
      rw [behind]
      exact .step (reads_nop first) (ih rest)

namespace Layout

structure Computed (layout : Layout) (code : Array UInt8) : Prop where
  decoded : Listing.decode code = .ok layout.listing
  gapIndex : layout.listing.indexAt layout.gap.offset = .ok layout.gapIndex
  settled : layout.Settled

theorem computed_of_compute {code : Array UInt8} {gap : Gap} {layout : Layout}
    (computed : compute code gap = .ok layout) : layout.Computed code ∧ layout.gap = gap := by
  obtain ⟨decoded, rfl, found, settled⟩ := compute_eq_ok computed
  exact ⟨⟨decoded, found, settled⟩, rfl⟩

section Computed

variable {layout : Layout} {code : Array UInt8} {index : Nat}

theorem Computed.placed (computed : layout.Computed code) : layout.Placed :=
  computed.settled.placed

theorem Computed.index_le (computed : layout.Computed code) {old : Nat}
    (found : layout.listing.indexAt old = .ok index) : index ≤ layout.listing.size :=
  indexAt_le computed.decoded found

theorem Computed.start_le (computed : layout.Computed code) (inRange : index ≤ layout.listing.size) :
    layout.start index ≤ maxLength :=
  Nat.le_trans (start_mono inRange) (computed.placed.length ▸ computed.settled.bounded)

theorem Computed.relocate_eq_ok (computed : layout.Computed code) {old new : Nat} :
    layout.relocate old = .ok new ↔ ∃ index, layout.listing.indexAt old = .ok index ∧
      new = if old = layout.gap.offset ∧ layout.gap.exclusive = false then layout.arrival index
        else layout.start index :=
  computed.placed.relocate_eq_ok computed.decoded computed.gapIndex

theorem Computed.relocate_le (computed : layout.Computed code) {old new : Nat}
    (relocated : layout.relocate old = .ok new) : new ≤ maxLength := by
  obtain ⟨index, found, rfl⟩ := computed.relocate_eq_ok.1 relocated
  have := computed.start_le (computed.index_le found)
  split
  · exact Nat.le_trans arrival_le_start this
  · exact this

/-- The instructions before an index have been written, and the gap if its index is below a limit. -/
structure Written (layout : Layout) (out : Array UInt8) (index limit : Nat) : Prop where
  image : ∀ {before : Nat} {entry : Nat × Located}, before < index →
    layout.listing.entries[before]? = some entry →
      ∃ image, Image layout.Lands (layout.start before) entry.2.instruction image ∧
        Runs out (layout.start before) image (layout.arrival (before + 1))
  gap : layout.gapIndex < limit →
    Holds out (layout.arrival layout.gapIndex) (List.replicate layout.gap.length Opcode.nop)

theorem Written.append_right {out : Array UInt8} {limit : Nat} (written : Written layout out index limit)
    (more : Array UInt8) : Written layout (out ++ more) index limit := by
  refine ⟨fun before known => ?_, fun below => (written.gap below).append_right⟩
  obtain ⟨image, is, run⟩ := written.image before known
  exact ⟨image, is, run.append_right more⟩

theorem emitGap_written {out : Array UInt8} (size : out.size = layout.arrival index)
    (written : Written layout out index index) :
    (layout.emitGap out index).size = layout.start index ∧
      Written layout (layout.emitGap out index) index (index + 1) := by
  by_cases here : index = layout.gapIndex
  · rw [emitGap, if_pos here]
    refine ⟨by rw [Array.size_append, Array.size_replicate, size, start, room, if_pos here], ?_⟩
    refine ⟨(written.append_right _).image, fun _ => ?_⟩
    have held := holds_append_size out (Array.replicate layout.gap.length Opcode.nop)
    rwa [size, here, Array.toList_replicate] at held
  · rw [emitGap, if_neg here]
    refine ⟨size.trans (start_of_ne here).symm, written.image, fun below => written.gap ?_⟩
    exact Nat.lt_of_le_of_ne (Nat.le_of_lt_succ below) (Ne.symm here)

theorem Computed.emitNext_written (computed : layout.Computed code) {out out' : Array UInt8}
    {index' : Nat} {entry : Nat × Located} (known : layout.listing.entries[index]? = some entry)
    (size : out.size = layout.arrival index) (written : Written layout out index index)
    (added : layout.emitNext (out, index) entry = .ok (out', index')) :
    index' = index + 1 ∧ out'.size = layout.arrival (index + 1) ∧
      Written layout out' (index + 1) (index + 1) := by
  obtain ⟨size, written⟩ := emitGap_written size written
  have inRange := (Array.getElem?_eq_some_iff.1 known).1
  have placed : layout.starts.getD index 0 = layout.start index := by
    rw [Array.getD_eq_getD_getElem?, computed.placed.starts index inRange, Option.getD_some]
  simp only [emitNext, bind_eq_ok, pure_eq_ok, placed, Prod.mk.injEq] at added
  obtain ⟨bytes, encoded, rfl, rfl⟩ := added
  obtain ⟨pos, located⟩ := entry
  have member := Array.mem_toList_iff.2 (Array.mem_of_getElem? known)
  have reads := ((decode_eq_ok.1 computed.decoded).1.mem_bounds member).1
  have short (opcode : Opcode) (target : Int) (branch : located.instruction = .branch opcode target)
      (narrow : layout.widened.getD index false = false) :
      ∃ distance, layout.displacement pos (layout.start index) target = .ok distance ∧
        isShort distance = true := by
    rw [← placed]
    exact computed.settled.short (known.trans (by rw [← branch])) narrow
  obtain ⟨length, image, is, run⟩ := encode_writes (computed.start_le (Nat.le_of_lt inRange))
    (fun old new => computed.relocate_le) reads.wellFormed encoded short
  rw [← reads.length_eq] at length
  rw [show layout.emitGap out index ++ bytes = layout.emitGap out index ++ bytes.toArray from
    Array.ext' (by simp)]
  have behind : layout.start index + bytes.length = layout.arrival (index + 1) := by
    rw [length, arrival_succ known]
  refine ⟨rfl, by simp [size, behind], ?_, fun below => ?_⟩
  · intro before entry less known'
    obtain earlier | rfl := Nat.lt_succ_iff_lt_or_eq.1 less
    · exact (written.append_right _).image earlier known'
    · cases known.symm.trans known'
      refine ⟨image, is, behind ▸ run _ ?_⟩
      simpa [size] using holds_append_size (layout.emitGap out before) bytes.toArray
  · exact (written.append_right _).gap below

theorem Computed.emit_written (computed : layout.Computed code) {out : Array UInt8}
    (emitted : layout.emit = .ok out) :
    out.size = layout.length ∧ Written layout out layout.listing.size (layout.listing.size + 1) := by
  have run (rest : List (Nat × Located)) : ∀ (index : Nat) (out out' : Array UInt8) (last : Nat),
      layout.listing.entries.toList.drop index = rest → index ≤ layout.listing.size →
      out.size = layout.arrival index → Written layout out index index →
      rest.foldlM layout.emitNext (out, index) = .ok (out', last) →
      last = layout.listing.size ∧ out'.size = layout.arrival last ∧ Written layout out' last last := by
    induction rest with
    | nil =>
        rintro index out out' last remaining inRange size written ⟨⟩
        have : layout.listing.entries.size ≤ index := by simpa using remaining
        exact ⟨Nat.le_antisymm inRange this, size, written⟩
    | cons entry rest ih =>
        intro index out out' last remaining inRange size written folded
        rw [List.foldlM_cons, bind_eq_ok] at folded
        obtain ⟨⟨next, index'⟩, added, folded⟩ := folded
        have known : layout.listing.entries[index]? = some entry := by
          have := congrArg List.head? remaining
          simpa using this
        obtain ⟨rfl, size, written⟩ := computed.emitNext_written known size written added
        refine ih (index + 1) next out' last ?_ (Array.getElem?_eq_some_iff.1 known).1 size written folded
        have := congrArg List.tail remaining
        simpa using this
  rw [emit, ← Array.foldlM_toList, bind_eq_ok] at emitted
  obtain ⟨⟨out, last⟩, folded, finished⟩ := emitted
  cases pure_eq_ok.1 finished
  obtain ⟨rfl, size, written⟩ := run _ 0 #[] out last rfl (Nat.zero_le _) rfl
    ⟨fun less => absurd less (Nat.not_lt_zero _), fun less => absurd less (Nat.not_lt_zero _)⟩ folded
  rw [computed.placed.length]
  exact emitGap_written size written

end Computed
end Layout
end ClassSplice.Code
