import ClassSplice.Proofs.Code.Spelling

/-!
Where a layout puts the instructions. The instruction at an index starts at `start`, behind the room
that the gap takes in front of it, and control that runs on from the one before it comes to
`arrival`.

Main statements: `place_placed` (the offsets that were computed are these) and `settle_eq_ok` (a layout
that is settled leaves no branch of 16 bits out of reach).
-/

namespace ClassSplice.Code

open Instruction (lengthAt)

namespace Layout

/-- Room that the gap takes in front of the instruction at an index. -/
def room (layout : Layout) (index : Nat) : Nat :=
  if index = layout.gapIndex then layout.gap.length else 0

/-- New offset behind the instructions before an index. -/
def arrival (layout : Layout) : Nat → Nat
  | 0 => 0
  | index + 1 =>
    let start := layout.arrival index + layout.room index
    match layout.listing.entries[index]? with
    | some entry => start + entry.2.lengthAt entry.1 start (layout.widened.getD index false)
    | none => start

/-- New offset of the instruction at an index. -/
def start (layout : Layout) (index : Nat) : Nat :=
  layout.arrival index + layout.room index

/-- The offsets of the layout are those of its instructions, one after the other. -/
structure Placed (layout : Layout) : Prop where
  size : layout.starts.size = layout.listing.size
  starts : ∀ index < layout.listing.size, layout.starts[index]? = some (layout.start index)
  length : layout.length = layout.start layout.listing.size

theorem arrival_succ {layout : Layout} {index : Nat} {entry : Nat × Located}
    (known : layout.listing.entries[index]? = some entry) :
    layout.arrival (index + 1) = layout.start index +
      entry.2.lengthAt entry.1 (layout.start index) (layout.widened.getD index false) := by
  simp only [arrival, known, start]

theorem arrival_beyond {layout : Layout} {index : Nat}
    (missing : layout.listing.entries[index]? = none) :
    layout.arrival (index + 1) = layout.start index := by
  simp only [arrival, missing, start]

theorem place_placed (listing : Listing) (gap : Gap) (gapIndex : Nat) (widened : Array Bool) :
    (place listing gap gapIndex widened).Placed := by
  let final := place listing gap gapIndex widened
  let step := fun (state : Array Nat × Nat) (entry : Nat × Located) =>
    let pc := if state.1.size = gapIndex then state.2 + gap.length else state.2
    (state.1.push pc, pc + entry.2.lengthAt entry.1 pc (widened.getD state.1.size false))
  let Reached := fun (index : Nat) (state : Array Nat × Nat) =>
    state.1.size = index ∧ state.2 = final.arrival index ∧
      ∀ before < index, state.1[before]? = some (final.start before)
  have advance : ∀ index : Fin listing.entries.size, ∀ state, Reached index state →
      Reached (index + 1) (step state listing.entries[index]) := by
    rintro ⟨index, inRange⟩ ⟨starts, pc⟩ ⟨size, arrived, before⟩
    dsimp only at size arrived before
    subst size
    have here : (if starts.size = gapIndex then pc + gap.length else pc) =
        final.start starts.size := by
      rw [arrived, start, room]
      show (if starts.size = gapIndex then _ else _) = _ + if starts.size = gapIndex then _ else _
      split <;> rfl
    have known : final.listing.entries[starts.size]? = some listing.entries[starts.size] :=
      Array.getElem?_eq_getElem inRange
    refine ⟨Array.size_push .., ?_, fun earlier less => ?_⟩
    · simp only [step, here]
      exact (arrival_succ known).symm
    · simp only [step, here]
      rw [Array.getElem?_push]
      split
      · simp_all
      · rename_i different
        exact before earlier (Nat.lt_of_le_of_ne (Nat.le_of_lt_succ less) different)
  let fold := listing.entries.foldl step (#[], 0)
  have reached : Reached listing.entries.size fold :=
    Array.foldl_induction Reached
      (And.intro rfl (And.intro rfl fun before less => absurd less (Nat.not_lt_zero _))) advance
  obtain ⟨size, behind, starts⟩ := reached
  have length : final.length = if fold.1.size = gapIndex then fold.2 + gap.length else fold.2 := rfl
  have room : final.room listing.entries.size =
      if listing.entries.size = gapIndex then gap.length else 0 := rfl
  refine ⟨size, starts, ?_⟩
  show final.length = final.arrival listing.entries.size + final.room listing.entries.size
  rw [length, room, size, behind]
  split <;> rfl

section Offsets

variable {layout : Layout} {index : Nat}

theorem arrival_le_start : layout.arrival index ≤ layout.start index :=
  Nat.le_add_right _ _

theorem start_le_arrival_succ : layout.start index ≤ layout.arrival (index + 1) := by
  rw [arrival]
  split
  · exact Nat.le_add_right _ _
  · exact Nat.le_refl _

theorem start_mono {last : Nat} (ordered : index ≤ last) : layout.start index ≤ layout.start last := by
  induction ordered with
  | refl => exact Nat.le_refl _
  | step _ ih => exact Nat.le_trans ih (Nat.le_trans start_le_arrival_succ arrival_le_start)

theorem arrival_mono {last : Nat} (ordered : index ≤ last) :
    layout.arrival index ≤ layout.arrival last := by
  induction ordered with
  | refl => exact Nat.le_refl _
  | step _ ih => exact Nat.le_trans ih (Nat.le_trans arrival_le_start start_le_arrival_succ)

theorem start_gapIndex : layout.start layout.gapIndex =
    layout.arrival layout.gapIndex + layout.gap.length := by
  rw [start, room, if_pos rfl]

theorem start_of_ne (different : index ≠ layout.gapIndex) :
    layout.start index = layout.arrival index := by
  rw [start, room, if_neg different, Nat.add_zero]

theorem gapEnd_eq (placed : layout.Placed) (inRange : layout.gapIndex ≤ layout.listing.size) :
    layout.gapEnd = layout.start layout.gapIndex := by
  rw [gapEnd, Array.getD_eq_getD_getElem?]
  obtain less | same := Nat.lt_or_eq_of_le inRange
  · rw [placed.starts _ less, Option.getD_some]
  · rw [same, Array.getElem?_eq_none (by rw [placed.size]), Option.getD_none, placed.length]

theorem gapStart_eq (placed : layout.Placed) (inRange : layout.gapIndex ≤ layout.listing.size) :
    layout.gapStart = layout.arrival layout.gapIndex := by
  rw [gapStart, gapEnd_eq placed inRange, start_gapIndex, Nat.add_sub_cancel]

end Offsets

section Relocate

variable {layout : Layout} {code : Array UInt8} {index : Nat}

theorem indexAt_le {listing : Listing} {old : Nat} (decoded : Listing.decode code = .ok listing)
    (found : listing.indexAt old = .ok index) : index ≤ listing.size := by
  obtain ⟨_, rfl⟩ | ⟨located, known⟩ := (indexAt_eq_ok decoded).1 found
  · exact Nat.le_refl _
  · exact Nat.le_of_lt (Array.getElem?_eq_some_iff.1 known).1

theorem Placed.relocate_eq_ok (placed : layout.Placed)
    (decoded : Listing.decode code = .ok layout.listing)
    (gapIndex : layout.listing.indexAt layout.gap.offset = .ok layout.gapIndex) {old new : Nat} :
    layout.relocate old = .ok new ↔ ∃ index, layout.listing.indexAt old = .ok index ∧
      new = if old = layout.gap.offset ∧ layout.gap.exclusive = false then layout.arrival index
        else layout.start index := by
  have gapRange := indexAt_le decoded gapIndex
  have sorted := increasing_of_decode decoded
  rw [relocate]
  split
  · rename_i same
    subst same
    rw [gapEnd_eq placed gapRange, gapStart_eq placed gapRange]
    simp only [gapIndex, Except.ok.injEq, exists_eq_left', true_and]
    cases layout.gap.exclusive <;> simp [eq_comm]
  · rename_i different
    simp only [different, false_and, if_false]
    split
    · rename_i atEnd
      have found : layout.listing.indexAt old = .ok layout.listing.size :=
        (indexAt_eq_ok decoded).2 (.inl ⟨atEnd, rfl⟩)
      simp only [found, Except.ok.injEq, exists_eq_left', placed.length]
      exact eq_comm
    · rename_i notEnd
      rw [Listing.indexAt, if_neg notEnd]
      split
      · rename_i index located found
        have known := (OffsetTable.lookup_eq_found sorted).1 found
        have inRange := (Array.getElem?_eq_some_iff.1 known).1
        simp only [Except.ok.injEq, exists_eq_left', Array.getD_eq_getD_getElem?,
          placed.starts index inRange, Option.getD_some]
        exact eq_comm
      · simp

/-- What stands behind an instruction is not moved back by moving the instruction on or by widening
it. A switch that moves may get shorter, but its operands start no earlier. -/
theorem add_lengthAt_mono {located : Located} {pos here here' : Nat} {wide wide' : Bool}
    (length : located.length = located.instruction.lengthAt pos) (ordered : here ≤ here')
    (widens : wide = true → wide' = true) :
    here + located.lengthAt pos here wide ≤ here' + located.lengthAt pos here' wide' := by
  obtain ⟨_, instruction⟩ := located
  dsimp only at length
  subst length
  cases instruction with
  | plain bytes => exact Nat.add_le_add_right ordered _
  | wideBranch opcode target => exact Nat.add_le_add_right ordered _
  | branch opcode target =>
      have three_le : 3 ≤ if opcode.isConditional then 8 else 5 := by split <;> omega
      show here + (if wide then (if opcode.isConditional then 8 else 5) else 3) ≤
        here' + if wide' then (if opcode.isConditional then 8 else 5) else 3
      cases wide with
      | true => exact widens rfl ▸ Nat.add_le_add_right ordered _
      | false => cases wide' <;> simp only [Bool.false_eq_true, if_false, if_true] <;> omega
  | tableSwitch | lookupSwitch =>
      simp only [Located.lengthAt, lengthAt, switchPadding]
      omega

theorem lengthAt_self {located : Located} {pos : Nat}
    (length : located.length = located.instruction.lengthAt pos) :
    located.lengthAt pos pos false = located.length := by
  obtain ⟨_, instruction⟩ := located
  dsimp only at length
  subst length
  cases instruction with
  | plain | branch | wideBranch => rfl
  | tableSwitch | lookupSwitch =>
      simp only [Located.lengthAt, lengthAt, switchPadding]
      omega

theorem le_arrival (decoded : Listing.decode code = .ok layout.listing) {pos : Nat}
    (found : layout.listing.indexAt pos = .ok index) : pos ≤ layout.arrival index := by
  induction index generalizing pos with
  | zero => exact Nat.le_of_eq (indexAt_inj decoded found (indexAt_zero decoded))
  | succ index ih =>
      have inRange : index < layout.listing.entries.size := indexAt_le decoded found
      have known := Array.getElem?_eq_getElem inRange
      generalize layout.listing.entries[index] = entry at known
      obtain ⟨before, located⟩ := entry
      have reads := ((decode_eq_ok.1 decoded).1.mem_bounds
        (Array.mem_toList_iff.2 (Array.mem_of_getElem? known))).1
      rw [indexAt_inj decoded found (indexAt_behind decoded known), arrival_succ known]
      have reached := Nat.le_trans (ih ((indexAt_eq_ok decoded).2 (.inr ⟨located, known⟩)))
        arrival_le_start
      rw [← lengthAt_self reads.length_eq]
      exact add_lengthAt_mono reads.length_eq reached fun wide => absurd wide Bool.false_ne_true

def Skips (listing : Listing) (index pos : Nat) (opcode : Opcode) : Prop :=
  listing.entries[index]? = some (pos, ⟨3, .branch opcode (pos + 8)⟩) ∧
    ∃ jump target, listing.entries[index + 1]? = some (pos + 3, ⟨5, .wideBranch jump target⟩)

def SkipsNarrow (listing : Listing) (gap : Gap) (gapIndex : Nat) (widened : Array Bool) : Prop :=
  ∀ {index pos : Nat} {opcode : Opcode}, Skips listing index pos opcode →
    (gap.exclusive = true → gap.offset ≠ pos + 8) → index + 1 ≠ gapIndex →
    widened.getD index false = false

/-- Where such a branch is not widened, it is still one over the jump. -/
theorem Placed.relocate_skip (placed : layout.Placed)
    (decoded : Listing.decode code = .ok layout.listing)
    (gapIndex : layout.listing.indexAt layout.gap.offset = .ok layout.gapIndex) {pos : Nat}
    {opcode : Opcode} (skips : Skips layout.listing index pos opcode)
    (near : layout.gap.exclusive = true → layout.gap.offset ≠ pos + 8)
    (narrow : layout.widened.getD index false = false) (away : index + 1 ≠ layout.gapIndex) :
    layout.relocate (pos + 8) = .ok (layout.start index + 8) := by
  obtain ⟨known, jump, target, behind⟩ := skips
  have found : layout.listing.indexAt (pos + 8) = .ok (index + 2) := indexAt_behind decoded behind
  have first : layout.arrival (index + 1) = layout.start index + 3 := by
    rw [arrival_succ known, narrow]
    rfl
  have second : layout.arrival (index + 2) = layout.start index + 8 := by
    rw [arrival_succ behind, start_of_ne away, first]
    rfl
  refine (placed.relocate_eq_ok decoded gapIndex).2 ⟨_, found, ?_⟩
  split
  · exact second.symm
  · rename_i elsewhere
    have apart : index + 2 ≠ layout.gapIndex := by
      intro same
      rw [same] at found
      have here := indexAt_inj decoded found gapIndex
      exact near (Bool.eq_true_of_not_eq_false fun inclusive => elsewhere ⟨here, inclusive⟩) here.symm
    rw [start_of_ne apart, second]

end Relocate

theorem allNeedsWide_eq_ok {layout : Layout} {wider : Array Bool}
    (done : layout.allNeedsWide = .ok wider) :
    wider.size = layout.listing.size ∧
      ∀ index entry, layout.listing.entries[index]? = some entry →
        ∃ flag, wider[index]? = some flag ∧ layout.needsWide index entry = .ok flag := by
  have listed : (layout.listing.entries.toList.mapIdx fun index entry => (index, entry)).mapM
      (fun pair => layout.needsWide pair.1 pair.2) = .ok wider.toList := by
    rw [← Array.toList_mapIdx, ← Array.toList_mapM, functor_map_eq_ok]
    exact ⟨wider, done, rfl⟩
  obtain ⟨size, each⟩ := List.forall₂_iff_get.1 (mapM_eq_ok.1 listed)
  simp only [List.length_mapIdx, Array.length_toList] at size
  refine ⟨size.symm, fun index entry known => ?_⟩
  obtain ⟨inRange, rfl⟩ := Array.getElem?_eq_some_iff.1 known
  have flagged : index < wider.size := size ▸ inRange
  refine ⟨wider[index], Array.getElem?_eq_getElem flagged, ?_⟩
  have := each index (by simpa using inRange) (by simpa using flagged)
  simpa using this

theorem count_false_of_rises {widened wider : List Bool}
    (rises : List.Forall₂ (fun before after => before = true → after = true) widened wider) :
    wider.count false ≤ widened.count false ∧
      (widened.count false ≤ wider.count false → wider = widened) := by
  induction rises with
  | nil => exact ⟨Nat.le_refl _, fun _ => rfl⟩
  | @cons before after widened wider rise rest ih =>
      cases before <;> cases after
      · simpa using ih
      · simp only [List.count_cons]
        refine ⟨by simp; omega, fun many => ?_⟩
        simp at many
        omega
      · exact absurd (rise rfl) Bool.false_ne_true
      · simpa using ih

theorem eq_of_narrowCount {widened wider : Array Bool} (size : wider.size = widened.size)
    (rises : ∀ index : Nat, widened[index]? = some true → wider[index]? = some true)
    (stable : ¬ narrowCount wider < narrowCount widened) : wider = widened := by
  have pointwise : List.Forall₂ (fun before after => before = true → after = true)
      widened.toList wider.toList := by
    refine List.forall₂_iff_get.2 ⟨by simpa using size.symm, fun index inRange inRange' raised => ?_⟩
    simp only [List.get_eq_getElem, Array.getElem_toList] at raised ⊢
    have := rises index (Array.getElem?_eq_some_iff.2 ⟨by simpa using inRange, raised⟩)
    exact (Array.getElem?_eq_some_iff.1 this).2
  refine Array.toList_inj.1 ((count_false_of_rises pointwise).2 ?_)
  simpa [narrowCount] using stable

theorem settle_eq_ok {listing : Listing} {gap : Gap} {gapIndex : Nat} {widened : Array Bool}
    {layout : Layout} {Holds : Array Bool → Prop}
    (keeps : ∀ widened wider, Holds widened →
      (place listing gap gapIndex widened).allNeedsWide = .ok wider → Holds wider)
    (initial : Holds widened) (settled : settle listing gap gapIndex widened = .ok layout) :
    ∃ last wider, Holds last ∧ layout = place listing gap gapIndex last ∧
      layout.length ≤ maxLength ∧ layout.allNeedsWide = .ok wider ∧
      ¬ narrowCount wider < narrowCount last := by
  fun_induction settle listing gap gapIndex widened with
  | case1 => cases settled
  | case2 => cases settled
  | case3 widened layout' fits wider round _ ih => exact ih (keeps _ _ initial round) settled
  | case4 widened layout' fits wider round stable =>
      obtain rfl : layout' = layout := Except.ok.inj settled
      exact ⟨widened, wider, initial, rfl, Nat.le_of_not_lt fits, round, stable⟩

structure Settled (layout : Layout) : Prop where
  placed : layout.Placed
  bounded : layout.length ≤ maxLength
  short : ∀ {index pos length : Nat} {opcode : Opcode} {target : Int},
    layout.listing.entries[index]? = some (pos, ⟨length, .branch opcode target⟩) →
      layout.widened.getD index false = false →
      ∃ distance, layout.displacement pos (layout.starts.getD index 0) target = .ok distance ∧
        isShort distance = true
  narrow : SkipsNarrow layout.listing layout.gap layout.gapIndex layout.widened

def OnlyBranches (listing : Listing) (widened : Array Bool) : Prop :=
  widened.size = listing.size ∧ ∀ (index : Nat) entry, listing.entries[index]? = some entry →
    widened[index]? = some true → ∃ opcode target, entry.2.instruction = .branch opcode target

theorem onlyBranches_of_round {layout : Layout} {wider : Array Bool}
    (round : layout.allNeedsWide = .ok wider) : OnlyBranches layout.listing wider := by
  obtain ⟨size, each⟩ := allNeedsWide_eq_ok round
  refine ⟨size, fun index entry known raised => ?_⟩
  obtain ⟨flag, same, needs⟩ := each index entry known
  cases raised.symm.trans same
  rw [needsWide] at needs
  split at needs
  · exact ⟨_, _, by assumption⟩
  · cases needs

theorem rises_of_round {layout : Layout} {wider : Array Bool}
    (only : OnlyBranches layout.listing layout.widened) (round : layout.allNeedsWide = .ok wider)
    {index : Nat} (raised : layout.widened[index]? = some true) : wider[index]? = some true := by
  obtain ⟨_, each⟩ := allNeedsWide_eq_ok round
  obtain ⟨inRange, _⟩ := Array.getElem?_eq_some_iff.1 raised
  have listed : index < layout.listing.entries.size := Nat.lt_of_lt_of_eq inRange only.1
  have known : layout.listing.entries[index]? = some layout.listing.entries[index] :=
    Array.getElem?_eq_getElem listed
  obtain ⟨opcode, target, branch⟩ := only.2 index _ known raised
  obtain ⟨flag, same, needs⟩ := each index _ known
  rw [needsWide, branch] at needs
  simp only [Array.getD_eq_getD_getElem?, raised, Option.getD_some, if_true,
    Except.ok.injEq] at needs
  rw [same, needs]

theorem round_stable {layout : Layout} {wider : Array Bool}
    (only : OnlyBranches layout.listing layout.widened) (round : layout.allNeedsWide = .ok wider)
    (stable : ¬ narrowCount wider < narrowCount layout.widened) : wider = layout.widened := by
  have size := (allNeedsWide_eq_ok round).1
  exact eq_of_narrowCount (size.trans only.1.symm) (fun _ => rises_of_round only round) stable

theorem onlyBranches_replicate (listing : Listing) :
    OnlyBranches listing (Array.replicate listing.size false) := by
  refine ⟨by simp, fun index entry known raised => ?_⟩
  simp [Array.getElem?_replicate] at raised

theorem narrow_of_round {code : Array UInt8} {layout : Layout} {wider : Array Bool}
    (placed : layout.Placed) (decoded : Listing.decode code = .ok layout.listing)
    (gapIndex : layout.listing.indexAt layout.gap.offset = .ok layout.gapIndex)
    {index pos : Nat} {opcode : Opcode} (skips : Skips layout.listing index pos opcode)
    (near : layout.gap.exclusive = true → layout.gap.offset ≠ pos + 8)
    (away : index + 1 ≠ layout.gapIndex) (narrow : layout.widened.getD index false = false)
    (round : layout.allNeedsWide = .ok wider) : wider.getD index false = false := by
  obtain ⟨flag, flagged, needs⟩ := (allNeedsWide_eq_ok round).2 _ _ skips.1
  have landed := placed.relocate_skip decoded gapIndex skips near narrow away
  have inRange := (Array.getElem?_eq_some_iff.1 skips.1).1
  have here : layout.starts.getD index 0 = layout.start index := by
    rw [Array.getD_eq_getD_getElem?, placed.starts index inRange, Option.getD_some]
  have distance : layout.displacement pos (layout.start index) (pos + 8) = .ok 8 := by
    have target : ((pos : Int) + 8).toNat = pos + 8 := by omega
    rw [displacement, relocateTarget, if_neg (by omega), target, landed]
    exact congrArg Except.ok (by omega)
  simp only [needsWide, narrow, Bool.false_eq_true, if_false, here, distance, ok_bind] at needs
  rw [Array.getD_eq_getD_getElem?, flagged, ← pure_eq_ok.1 needs]
  rfl

theorem settle_settled {code : Array UInt8} {listing : Listing} {gap : Gap} {gapIndex : Nat}
    {layout : Layout} (decoded : Listing.decode code = .ok listing)
    (found : listing.indexAt gap.offset = .ok gapIndex)
    (settled : settle listing gap gapIndex (Array.replicate listing.size false) = .ok layout) :
    ∃ last, layout = place listing gap gapIndex last ∧ layout.Settled := by
  have initial : OnlyBranches listing (Array.replicate listing.size false) ∧
      SkipsNarrow listing gap gapIndex (Array.replicate listing.size false) := by
    refine ⟨onlyBranches_replicate listing, fun {index} _ _ _ _ _ => ?_⟩
    rw [Array.getD_eq_getD_getElem?, Array.getElem?_replicate]
    split <;> rfl
  have keeps : ∀ widened wider, (OnlyBranches listing widened ∧
      SkipsNarrow listing gap gapIndex widened) →
      (place listing gap gapIndex widened).allNeedsWide = .ok wider →
      OnlyBranches listing wider ∧ SkipsNarrow listing gap gapIndex wider := by
    intro widened wider ⟨_, narrow⟩ round
    refine ⟨onlyBranches_of_round round, fun skips near away => ?_⟩
    exact narrow_of_round (place_placed listing gap gapIndex widened) decoded found skips near away
      (narrow skips near away) round
  obtain ⟨last, wider, ⟨only, narrows⟩, rfl, bounded, round, stable⟩ :=
    settle_eq_ok keeps initial settled
  refine ⟨last, rfl, place_placed _ _ _ _, bounded, fun known narrow => ?_, narrows⟩
  have same := round_stable only round stable
  subst same
  obtain ⟨flag, flagged, needs⟩ := (allNeedsWide_eq_ok round).2 _ _ known
  simp only [needsWide, narrow, Bool.false_eq_true, if_false, bind_eq_ok, pure_eq_ok] at needs
  obtain ⟨distance, reached, rfl⟩ := needs
  refine ⟨distance, reached, ?_⟩
  rw [Array.getD_eq_getD_getElem?] at narrow
  have := narrow.symm.trans (congrArg (Option.getD · false) flagged)
  simpa using this

theorem compute_eq_ok {code : Array UInt8} {gap : Gap} {layout : Layout}
    (computed : compute code gap = .ok layout) :
    Listing.decode code = .ok layout.listing ∧ layout.gap = gap ∧
      layout.listing.indexAt gap.offset = .ok layout.gapIndex ∧ layout.Settled := by
  obtain ⟨listing, decoded, computed⟩ := bind_eq_ok.1 computed
  obtain ⟨gapIndex, found, settled⟩ := bind_eq_ok.1 computed
  obtain ⟨last, rfl, settled⟩ := settle_settled decoded found settled
  exact ⟨decoded, rfl, found, settled⟩

end Layout
end ClassSplice.Code
