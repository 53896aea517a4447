import ClassSplice.Proofs.Layout.Opening

/-!
The end of a body, from a place on out of which nothing leads and where no switch stands. A gap that is
opened in front of it moves it as it is: no branch in it is widened, and its bytes stay the same
(`insertGap_carries`, `Carries.bytes`).
-/

namespace ClassSplice.Code

variable {code code' : Array UInt8} {pos start stop distance : Nat} {located : Located}
  {entries : List (Nat × Located)}

theorem Reads.isShort {length : Nat} {opcode : Opcode} {target : Int}
    (reads : Reads code pos ⟨length, .branch opcode target⟩) :
    Layout.isShort (target - pos) = true := by
  have spelled := spelled_of_reads reads
  generalize same : Located.mk length (.branch opcode target) = located at spelled
  cases spelled with
  | @branch _ distance =>
      cases same
      have low := distance.le_toInt
      have high := distance.toInt_lt
      simp only [Layout.isShort, Bool.and_eq_true, decide_eq_true_eq]
      omega
  | plain | wideBranch | tableSwitch | lookupSwitch => cases congrArg Located.instruction same

theorem Reads.holds_spell (reads : Reads code pos located)
    (straight : located.instruction.isSwitch = false) :
    Holds code pos (located.instruction.spell pos) := by
  cases spelled_of_reads reads with
  | plain _ _ _ _ held => exact held
  | branch first _ read =>
      rw [Instruction.spell, add_sub_cancel_left]
      exact holds_cons.2 ⟨holds_of_byteAt first, holds_of_i16At read⟩
  | wideBranch first _ read =>
      rw [Instruction.spell, add_sub_cancel_left]
      exact holds_cons.2 ⟨holds_of_byteAt first, holds_of_i32At read⟩
  | tableSwitch | lookupSwitch => cases straight

theorem Instruction.spell_shift {instruction : Instruction} (straight : instruction.isSwitch = false) :
    (instruction.shift distance).spell (distance + pos) = instruction.spell pos := by
  have same (target : Int) : target + distance - (distance + pos : Nat) = target - pos := by omega
  cases instruction with
  | plain bytes => rfl
  | branch opcode target | wideBranch opcode target => simp only [shift, spell, same]
  | tableSwitch | lookupSwitch => cases straight

theorem Runs.holds_spell (run : Runs code start entries stop)
    (straight : ∀ entry ∈ entries, entry.2.instruction.isSwitch = false) (bounded : start ≤ code.size) :
    Holds code start (entries.flatMap fun entry => entry.2.instruction.spell entry.1) ∧
      start + (entries.flatMap fun entry => entry.2.instruction.spell entry.1).length = stop := by
  induction run with
  | done pos =>
      have held : Holds code pos (code.extract pos pos).toList := holds_extract bounded (Nat.le_refl _)
      rw [Array.extract_eq_empty_of_le (by omega)] at held
      exact ⟨held, rfl⟩
  | @step pos stop located entries reads rest ih =>
      have here := reads.holds_spell (straight _ List.mem_cons_self)
      obtain ⟨behind, ends⟩ := ih (fun entry member => straight entry (List.mem_cons_of_mem _ member))
        reads.le_size
      have length := Instruction.length_spell pos located.instruction
      rw [← reads.length_eq] at length
      rw [List.flatMap_cons, holds_append, List.length_append, length]
      exact ⟨⟨here, behind⟩, by rw [← Nat.add_assoc, ends]⟩

theorem flatMap_spell_shifted (straight : ∀ entry ∈ entries, entry.2.instruction.isSwitch = false) :
    ((entries.map (shiftedBy distance)).flatMap fun entry => entry.2.instruction.spell entry.1) =
      entries.flatMap fun entry => entry.2.instruction.spell entry.1 := by
  rw [List.flatMap_map]
  exact List.flatMap_congr fun entry member => Instruction.spell_shift (straight entry member)

theorem Instruction.isSwitch_shift (instruction : Instruction) :
    (instruction.shift distance).isSwitch = instruction.isSwitch := by
  cases instruction with
  | plain | branch | wideBranch | tableSwitch | lookupSwitch => rfl

theorem Instruction.targets_shift {instruction : Instruction} (straight : instruction.isSwitch = false) :
    (instruction.shift distance).targets = instruction.targets.map (· + (distance : Int)) := by
  cases instruction with
  | plain | branch | wideBranch => rfl
  | tableSwitch | lookupSwitch => cases straight

theorem Instruction.shift_shift (instruction : Instruction) (further : Nat) :
    (instruction.shift distance).shift further =
      instruction.shift ((further + distance : Nat) : Int) := by
  have same (target : Int) : target + distance + further = target + (further + distance : Nat) := by
    omega
  cases instruction with
  | plain => rfl
  | branch | wideBranch => simp only [shift, same]
  | tableSwitch | lookupSwitch => simp [shift, Function.comp_def, same]

theorem shiftedBy_comp (further : Nat) :
    shiftedBy further ∘ shiftedBy distance = shiftedBy (further + distance) := by
  funext entry
  simp only [Function.comp_apply, shiftedBy, Instruction.shift_shift, Nat.add_assoc]

theorem Runs.shifted (run : Runs code start entries stop)
    (each : ∀ {pos : Nat} {located : Located}, (pos, located) ∈ entries →
      Runs code' (distance + pos) [shiftedBy distance (pos, located)]
        (distance + (pos + located.length))) :
    Runs code' (distance + start) (entries.map (shiftedBy distance)) (distance + stop) := by
  induction run with
  | done => exact .done _
  | step _ _ ih =>
      exact (each List.mem_cons_self).append (ih fun member => each (List.mem_cons_of_mem _ member))

/-- The instructions from a place to the end of the code. None of them is a switch, and none leads to a
place in front of them. -/
structure Closed (code : Array UInt8) (start : Nat) (entries : List (Nat × Located)) : Prop where
  run : Runs code start entries code.size
  straight : ∀ entry ∈ entries, entry.2.instruction.isSwitch = false
  inside : ∀ entry ∈ entries, ∀ target ∈ entry.2.instruction.targets, (start : Int) ≤ target

namespace Closed

theorem mem_iff {listing : Listing} (closed : Closed code start entries)
    (decoded : Listing.decode code = .ok listing) (boundary : listing.IsBoundary start) :
    (pos, located) ∈ entries ↔ (pos, located) ∈ listing.entries ∧ start ≤ pos := by
  have run := closed.run
  rw [← (decode_eq_ok.1 decoded).2] at run
  exact mem_iff_of_runs decoded boundary run

theorem shifted (closed : Closed code start entries)
    (run : Runs code' (distance + start) (entries.map (shiftedBy distance)) code'.size) :
    Closed code' (distance + start) (entries.map (shiftedBy distance)) := by
  refine ⟨run, fun entry member => ?_, fun entry member target named => ?_⟩
  · obtain ⟨entry, known, rfl⟩ := List.mem_map.1 member
    exact (Instruction.isSwitch_shift _).trans (closed.straight entry known)
  · obtain ⟨entry, known, rfl⟩ := List.mem_map.1 member
    have named : target ∈ (entry.2.instruction.shift distance).targets := named
    rw [Instruction.targets_shift (closed.straight entry known)] at named
    obtain ⟨original, originally, rfl⟩ := List.mem_map.1 named
    have := closed.inside entry known original originally
    omega

end Closed

theorem Image.eq_shifted {Lands : Int → Int → Prop} {image : List (Nat × Located)}
    (is : Image Lands pos located.instruction image)
    (run : Runs code pos image (pos + located.length)) {old : Nat}
    (length : located.length = located.instruction.lengthAt old)
    (straight : located.instruction.isSwitch = false)
    (lands : ∀ target ∈ located.instruction.targets, ∀ moved, Lands target moved →
      moved = target + (distance : Int)) :
    image = [(pos, ⟨located.length, located.instruction.shift distance⟩)] := by
  obtain ⟨_, instruction⟩ := located
  dsimp only at length run is straight lands ⊢
  subst length
  cases instruction with
  | plain bytes =>
      cases is
      rfl
  | branch opcode target =>
      exact is.eq_of_short run fun moved landed => lands target (List.mem_singleton_self _) moved landed
  | wideBranch opcode target =>
      cases is with
      | wideBranch landed =>
          rw [lands target (List.mem_singleton_self _) _ landed]
          rfl
  | tableSwitch | lookupSwitch => cases straight

namespace Layout

variable {layout : Layout} {first index : Nat}

theorem lengthAt_of_straight (straight : located.instruction.isSwitch = false) (here : Nat) :
    located.lengthAt pos here false = located.length := by
  obtain ⟨length, instruction⟩ := located
  cases instruction with
  | plain | branch | wideBranch => rfl
  | tableSwitch | lookupSwitch => cases straight

def NarrowFrom (first : Nat) (widened : Array Bool) : Prop :=
  ∀ index, first ≤ index → widened.getD index false = false

section Closed

variable (decoded : Listing.decode code = .ok layout.listing) (closed : Closed code start entries)
  (found : layout.listing.indexAt start = .ok first) (behind : layout.gapIndex < first)
  (narrow : NarrowFrom first layout.widened)

include decoded closed found in
theorem mem_of_closed (known : layout.listing.entries[index]? = some (pos, located))
    (above : first ≤ index) : (pos, located) ∈ entries := by
  have boundary := (isBoundary_iff decoded).2 ⟨first, found⟩
  have here := (indexAt_eq_ok decoded).2 (.inr ⟨located, known⟩)
  refine (closed.mem_iff decoded boundary).2 ⟨Array.mem_of_getElem? known, ?_⟩
  exact Nat.le_of_not_lt fun less => Nat.not_lt_of_le above ((indexAt_lt_iff decoded here found).1 less)

include decoded closed found behind narrow

theorem start_of_closed (known : layout.listing.indexAt pos = .ok index) (above : first ≤ index) :
    layout.start index + start = layout.start first + pos := by
  induction index, above using Nat.le_induction generalizing pos with
  | base => rw [indexAt_inj decoded known found]
  | succ index above ih =>
      have inRange : index < layout.listing.entries.size := indexAt_le decoded known
      have listed := Array.getElem?_eq_getElem inRange
      generalize layout.listing.entries[index] = entry at listed
      obtain ⟨before, located⟩ := entry
      have straight := closed.straight _ (mem_of_closed decoded closed found listed above)
      have earlier := ih ((indexAt_eq_ok decoded).2 (.inr ⟨located, listed⟩))
      rw [indexAt_inj decoded known (indexAt_behind decoded listed), start_of_ne (by omega),
        arrival_succ listed, narrow index above, lengthAt_of_straight straight]
      dsimp only
      omega

theorem lands_of_closed (placed : layout.Placed)
    (gapIndex : layout.listing.indexAt layout.gap.offset = .ok layout.gapIndex) {target moved : Int}
    (above : (start : Int) ≤ target) (lands : layout.Lands target moved) :
    moved + start = target + layout.start first := by
  obtain ⟨old, new, rfl, relocated, rfl⟩ := lands
  obtain ⟨index, known, rfl⟩ := (placed.relocate_eq_ok decoded gapIndex).1 relocated
  have before := (indexAt_lt_iff decoded gapIndex found).2 behind
  have above : first ≤ index := by
    by_contra less
    have := (indexAt_lt_iff decoded known found).2 (Nat.lt_of_not_le less)
    omega
  rw [if_neg (by omega)]
  have := start_of_closed decoded closed found behind narrow known above
  omega

variable (layout) in
theorem narrow_of_closed (placed : layout.Placed)
    (gapIndex : layout.listing.indexAt layout.gap.offset = .ok layout.gapIndex) {wider : Array Bool}
    (round : layout.allNeedsWide = .ok wider) : NarrowFrom first wider := by
  intro index above
  obtain ⟨size, each⟩ := allNeedsWide_eq_ok round
  rw [Array.getD_eq_getD_getElem?]
  rcases Nat.lt_or_ge index layout.listing.entries.size with inRange | beyond
  · have known := Array.getElem?_eq_getElem inRange
    generalize layout.listing.entries[index] = entry at known
    obtain ⟨pos, length, instruction⟩ := entry
    obtain ⟨flag, flagged, needs⟩ := each index _ known
    rw [flagged, Option.getD_some]
    have member := mem_of_closed decoded closed found known above
    cases instruction with
    | plain | wideBranch | tableSwitch | lookupSwitch => exact (Except.ok.inj needs).symm
    | branch opcode target =>
        simp only [needsWide, narrow index above, Bool.false_eq_true, if_false, bind_eq_ok,
          pure_eq_ok] at needs
        obtain ⟨distance, displaced, rfl⟩ := needs
        obtain ⟨moved, landed, rfl⟩ := displacement_eq_ok.1 displaced
        have lands := lands_of_closed decoded closed found behind narrow placed gapIndex
          (closed.inside _ member target (List.mem_singleton_self _)) landed
        have here := start_of_closed decoded closed found behind narrow
          ((indexAt_eq_ok decoded).2 (.inr ⟨_, known⟩)) above
        have short := (reads_of_mem decoded (Array.mem_of_getElem? known)).isShort
        rw [Array.getD_eq_getD_getElem?, placed.starts index inRange, Option.getD_some,
          show moved - layout.start index = target - pos by omega, short]
        rfl
  · rw [Array.getElem?_eq_none (by rw [size]; exact beyond), Option.getD_none]

end Closed

theorem narrow_of_compute {gap : Gap} (computed : compute code gap = .ok layout)
    (closed : Closed code start entries) (found : layout.listing.indexAt start = .ok first)
    (before : gap.offset < start) : NarrowFrom first layout.widened := by
  obtain ⟨decoded, _, gapFound, _⟩ := compute_eq_ok computed
  rw [compute, decoded, ok_bind, gapFound, ok_bind] at computed
  have behind := (indexAt_lt_iff decoded gapFound found).1 before
  have initially : NarrowFrom first (Array.replicate layout.listing.size false) := by
    intro index _
    rw [Array.getD_eq_getD_getElem?, Array.getElem?_replicate]
    split
    · rfl
    · rfl
  obtain ⟨last, _, narrow, same, _⟩ := settle_eq_ok (fun widened wider narrow round =>
    narrow_of_closed (place layout.listing gap layout.gapIndex widened) decoded closed found
      behind narrow (place_placed _ _ _ _) gapFound round) initially computed
  rw [same]
  exact narrow

section Computed

variable {out : Array UInt8} (computed : layout.Computed code) (emitted : layout.emit = .ok out)
  (closed : Closed code start entries) (found : layout.listing.indexAt start = .ok first)
  (before : layout.gap.offset < start) (narrow : NarrowFrom first layout.widened)

include computed emitted closed found before narrow

theorem Computed.runs_of_closed (here : layout.start first = distance + start)
    (member : (pos, located) ∈ entries) :
    Runs out (distance + pos) [shiftedBy distance (pos, located)]
      (distance + (pos + located.length)) := by
  have decoded := computed.decoded
  have behind := (indexAt_lt_iff decoded computed.gapIndex found).1 before
  have boundary := (isBoundary_iff decoded).2 ⟨first, found⟩
  obtain ⟨listed, above⟩ := (closed.mem_iff decoded boundary).1 member
  obtain ⟨index, known⟩ := Array.mem_iff_getElem?.1 listed
  have indexed := (indexAt_eq_ok decoded).2 (.inr ⟨located, known⟩)
  have above : first ≤ index := Nat.le_of_not_lt fun less =>
    Nat.not_lt_of_le above ((indexAt_lt_iff decoded indexed found).2 less)
  have placed := start_of_closed decoded closed found behind narrow indexed above
  have straight := closed.straight _ member
  have arrives : layout.arrival (index + 1) = layout.start index + located.length := by
    rw [arrival_succ known, narrow index above, lengthAt_of_straight straight]
  obtain ⟨image, is, run⟩ := (computed.emit_written emitted).2.image
    (Array.getElem?_eq_some_iff.1 known).1 known
  rw [arrives] at run
  have same : image = [(layout.start index, ⟨located.length, located.instruction.shift distance⟩)] :=
    is.eq_shifted run (reads_of_mem decoded listed).length_eq straight
      fun target named moved landed => by
        have := lands_of_closed decoded closed found behind narrow computed.placed
          computed.gapIndex (closed.inside _ member target named) landed
        omega
  rw [same, show layout.start index = distance + pos by omega] at run
  rwa [← Nat.add_assoc]

theorem Computed.moves_closed : ∃ distance, layout.start first = distance + start ∧
    Closed out (distance + start) (entries.map (shiftedBy distance)) := by
  have decoded := computed.decoded
  have behind := (indexAt_lt_iff decoded computed.gapIndex found).1 before
  obtain ⟨distance, here⟩ :=
    Nat.exists_eq_add_of_le' (Nat.le_trans (le_arrival decoded found) arrival_le_start)
  have run := closed.run.shifted
    fun member => computed.runs_of_closed emitted closed found before narrow here member
  have ends : distance + code.size = out.size := by
    have atEnd : layout.listing.indexAt layout.listing.next = .ok layout.listing.size :=
      (indexAt_eq_ok decoded).2 (.inl ⟨rfl, rfl⟩)
    have := start_of_closed decoded closed found behind narrow atEnd (computed.index_le found)
    rw [(computed.emit_written emitted).1, computed.placed.length, ← (decode_eq_ok.1 decoded).2]
    omega
  rw [ends] at run
  exact ⟨distance, here, closed.shifted run⟩

end Computed

end Layout

namespace Cursor

variable {cursor next : Cursor} {gap : Gap}

theorem insertGap_before (inserted : cursor.insertGap gap = .ok (start, next))
    (before : gap.offset < cursor.pos) : start + gap.length < next.pos := by
  obtain ⟨old, place, opened⟩ := insertGap_opened inserted
  have ordered := opened.code.ordered opened.code.boundary opened.boundary before
  have behind := opened.code.behind
  have moved := opened.pos
  unfold Relocation.enter at ordered
  unfold Relocation.land at moved
  rw [if_neg (Nat.ne_of_gt before)] at ordered
  rw [if_neg fun both => Nat.ne_of_gt before both.1] at moved
  rwa [moved, ← behind]

def Carries (start : Nat) (entries : List (Nat × Located)) (cursor : Cursor) : Prop :=
  ∃ distance, cursor.pos = distance + start ∧
    Closed cursor.code.bytes cursor.pos (entries.map (shiftedBy distance))

theorem insertGap_carries {origin : Nat} (inserted : cursor.insertGap gap = .ok (start, next))
    (before : gap.offset < cursor.pos) (carries : Carries origin entries cursor) :
    Carries origin entries next := by
  obtain ⟨moved, at_pos, closed⟩ := carries
  obtain ⟨layout, stages, rfl⟩ := insertGap_eq_ok.1 inserted
  obtain ⟨known, rfl⟩ := Layout.computed_of_compute stages.computed
  obtain ⟨first, found, placed⟩ := known.relocate_eq_ok.1 stages.pos
  rw [if_neg fun both => Nat.ne_of_gt before both.1] at placed
  have narrow := Layout.narrow_of_compute stages.computed closed found before
  obtain ⟨distance, same, closed⟩ := known.moves_closed stages.bytes closed found before narrow
  rw [← same, ← placed, List.map_map, shiftedBy_comp] at closed
  exact ⟨distance + moved, by omega, closed⟩

theorem Overwritten.carries {origin : Nat} {bytes : List UInt8}
    (overwritten : cursor.Overwritten next pos bytes) (before : pos + bytes.length ≤ cursor.pos)
    (carries : Carries origin entries cursor) : Carries origin entries next := by
  obtain ⟨moved, at_pos, closed⟩ := carries
  refine ⟨moved, overwritten.pos.trans at_pos, ?_, closed.straight, ?_⟩
  · rw [overwritten.pos, overwritten.size]
    exact closed.run.transfer fun i low high => overwritten.back i (Nat.le_trans before low) high
  · rw [overwritten.pos]
    exact closed.inside

theorem Carries.bytes {code : Array UInt8} (carries : Carries start entries cursor)
    (closed : Closed code start entries) (bounded : start ≤ code.size)
    (inside : cursor.pos ≤ cursor.code.bytes.size) {length : Nat} (whole : start + length = code.size) :
    cursor.pos + length = cursor.code.bytes.size ∧
      ∀ i < length, cursor.code.bytes[cursor.pos + i]? = code[start + i]? := by
  obtain ⟨distance, _, closed'⟩ := carries
  obtain ⟨held, ends⟩ := closed.run.holds_spell closed.straight bounded
  obtain ⟨held', ends'⟩ := closed'.run.holds_spell closed'.straight inside
  rw [flatMap_spell_shifted closed.straight] at held' ends'
  generalize (entries.flatMap fun entry => entry.2.instruction.spell entry.1) = bytes at *
  obtain rfl : length = bytes.length := by omega
  exact ⟨ends', fun i less => (held'.getElem? less).trans (held.getElem? less).symm⟩

end Cursor

end ClassSplice.Code
