import ClassSplice.Proofs.Code.Dispatch
import ClassSplice.Proofs.Layout.Coverage
import ClassSplice.Proofs.Layout.Rounds

/-!
What comes of opening a gap. The stages work on a copy of the body, so that a failure in any of them
leaves the cursor as it was (`openGap_atomic`). Where the offsets of a body are all places of it, no
stage behind the layout fails (`Computed.exists_stages`): places keep their order, so that no range
becomes empty or negative.

Main statement: `openGap_outcome` (a gap is refused for its place or for the length of the code, and
for nothing else).
-/

namespace ClassSplice.Code

def BodyAttribute.LiesOn (listing : Listing) : BodyAttribute → Prop
  | lines _ rows => ∀ row ∈ rows, listing.IsBoundary row.start.toNat
  | locals _ rows | localTypes _ rows => ∀ row ∈ rows, listing.IsBoundary row.start.toNat ∧
      listing.IsBoundary (row.start.toNat + row.length.toNat)
  | other _ => True

/-- All offsets in the body are places of it, and every handler protects something. -/
structure Anchored (code : Code) (old : Listing) : Prop where
  targets : old.Aimed
  handlers : ∀ handler ∈ code.handlers,
    handler.LiesOn old ∧ handler.start.toNat < handler.stop.toNat
  attributes : ∀ table ∈ code.attributes, table.LiesOn old

namespace Layout

variable {layout : Layout} {code : Array UInt8} {out : Array UInt8}

section Encode

variable (placed : layout.Placed) (decoded : Listing.decode code = .ok layout.listing)
  (found : layout.listing.indexAt layout.gap.offset = .ok layout.gapIndex)
  (aimed : layout.listing.Aimed)

include placed decoded found aimed

theorem Placed.exists_encode {pos : Nat} {located : Located} (here : Nat) (wide : Bool)
    (member : (pos, located) ∈ layout.listing.entries) :
    ∃ bytes, layout.encode pos here wide located.instruction = .ok bytes := by
  obtain ⟨length, instruction⟩ := located
  have moves (here : Nat) (target : Int) (named : target ∈ instruction.targets) :
      ∃ distance, layout.displacement pos here target = .ok distance :=
    placed.exists_displacement decoded found aimed here member named
  cases instruction with
  | plain bytes => exact ⟨bytes, rfl⟩
  | branch opcode target =>
      have named : target ∈ (Instruction.branch opcode target).targets := List.mem_singleton_self _
      obtain ⟨near, narrow⟩ := moves here target named
      obtain ⟨far, behind⟩ := moves (here + 3) target named
      rw [encode]
      split
      · split
        · rw [behind]
          exact ⟨_, rfl⟩
        · rw [narrow]
          exact ⟨_, rfl⟩
      · rw [narrow]
        exact ⟨_, rfl⟩
  | wideBranch opcode target =>
      obtain ⟨distance, displaced⟩ := moves here target (List.mem_singleton_self _)
      rw [encode, displaced]
      exact ⟨_, rfl⟩
  | tableSwitch default low high targets =>
      obtain ⟨first, displaced⟩ := moves here default List.mem_cons_self
      obtain ⟨distances, listed⟩ := exists_mapM fun target member =>
        moves here target (List.mem_cons_of_mem _ member)
      rw [encode, displaced, ok_bind, listed]
      exact ⟨_, rfl⟩
  | lookupSwitch default cases =>
      obtain ⟨first, displaced⟩ := moves here default List.mem_cons_self
      have each (pair : Int32 × Int) (member : pair ∈ cases) : ∃ moved, (do
          return (pair.1, ← layout.displacement pos here pair.2) : Except Error (Int32 × Int)) =
            .ok moved := by
        obtain ⟨distance, displaced⟩ := moves here pair.2
          (List.mem_cons_of_mem _ (List.mem_map_of_mem member : pair.2 ∈ cases.map Prod.snd))
        rw [displaced]
        exact ⟨_, rfl⟩
      obtain ⟨distances, listed⟩ := exists_mapM each
      rw [encode, displaced, ok_bind, listed]
      exact ⟨_, rfl⟩

theorem Placed.exists_emit : ∃ out, layout.emit = .ok out := by
  have written : ∃ last, layout.listing.entries.toList.foldlM layout.emitNext (#[], 0) =
      .ok last := by
    refine exists_foldlM (fun entry member (out, index) => ?_) _
    obtain ⟨bytes, encoded⟩ := placed.exists_encode decoded found aimed
      (layout.starts.getD index 0) (layout.widened.getD index false) (Array.mem_toList_iff.1 member)
    simp only [emitNext, encoded, ok_bind]
    exact ⟨_, rfl⟩
  obtain ⟨last, folded⟩ := written
  rw [emit, ← Array.foldlM_toList, folded]
  exact ⟨_, rfl⟩

end Encode

section Rows

variable (computed : layout.Computed code)

include computed

theorem Computed.exists_word {pos : Nat} (boundary : layout.listing.IsBoundary pos) :
    ∃ word : UInt16, layout.relocate pos = .ok word.toNat ∧
      word.toNat = layout.relocation.land pos := by
  have relocated := computed.relocate_iff.2 ⟨boundary, rfl⟩
  have fits : layout.relocation.land pos < UInt16.size :=
    Nat.lt_succ_of_le (computed.relocate_le relocated)
  have word : (UInt16.ofNat (layout.relocation.land pos)).toNat = layout.relocation.land pos :=
    UInt16.toNat_ofNat_of_lt' fits
  exact ⟨UInt16.ofNat _, word.symm ▸ relocated, word⟩

theorem Computed.exists_line {before : LineNumber}
    (boundary : layout.listing.IsBoundary before.start.toNat) :
    ∃ after, before.Moved layout.relocate after := by
  obtain ⟨start, relocated, _⟩ := computed.exists_word boundary
  exact ⟨{ before with start }, relocated, rfl⟩

theorem Computed.exists_range {before : LocalRange}
    (start : layout.listing.IsBoundary before.start.toNat)
    (stop : layout.listing.IsBoundary (before.start.toNat + before.length.toNat)) :
    ∃ after, before.Moved layout.relocate after := by
  obtain ⟨first, movesFirst, _⟩ := computed.exists_word start
  obtain ⟨last, movesLast, _⟩ := computed.exists_word stop
  have fits : last.toNat - first.toNat < UInt16.size := Nat.sub_lt_of_lt last.toNat_lt
  exact ⟨{ before with start := first, length := UInt16.ofNat (last.toNat - first.toNat) },
    ⟨last.toNat, movesFirst, movesLast, UInt16.toNat_ofNat_of_lt' fits⟩, rfl, rfl, rfl⟩

theorem Computed.exists_attribute {before : BodyAttribute} (lies : before.LiesOn layout.listing) :
    ∃ after, before.relocate layout.relocate = (after, none) := by
  simp only [BodyAttribute.relocate_eq]
  cases before with
  | lines name rows =>
      obtain ⟨rows', each⟩ := exists_forall₂ fun row member => computed.exists_line (lies row member)
      exact ⟨_, .lines each⟩
  | locals name rows =>
      obtain ⟨rows', each⟩ := exists_forall₂ fun row member =>
        computed.exists_range (lies row member).1 (lies row member).2
      exact ⟨_, .locals each⟩
  | localTypes name rows =>
      obtain ⟨rows', each⟩ := exists_forall₂ fun row member =>
        computed.exists_range (lies row member).1 (lies row member).2
      exact ⟨_, .localTypes each⟩
  | other raw => exact ⟨_, .other raw⟩

theorem Computed.exists_handler (opened : Opened layout.listing layout.relocation out)
    {before : Handler} (lies : before.LiesOn layout.listing)
    (nonempty : before.start.toNat < before.stop.toNat) :
    ∃ after, before.relocate layout.relocate = .ok after := by
  obtain ⟨start, movesStart, first⟩ := computed.exists_word lies.start
  obtain ⟨stop, movesStop, last⟩ := computed.exists_word lies.stop
  obtain ⟨target, movesTarget, _⟩ := computed.exists_word lies.target
  have ordered := opened.land_lt_land lies.start lies.stop nonempty
  rw [← first, ← last] at ordered
  exact ⟨⟨start, stop, target, before.catchType⟩, Handler.relocate_eq_ok.2
    ⟨_, _, _, movesStart, movesStop, movesTarget, ⟨rfl, rfl, rfl, ordered⟩, rfl⟩⟩

end Rows

/-- The layout that a gap leads to, if it were for the length of the code alone. -/
def IsFinal (old : Listing) (gap : Gap) (final : Layout) : Prop :=
  ∃ gapIndex, old.indexAt gap.offset = .ok gapIndex ∧
    Settles old gap gapIndex (Array.replicate old.size false) final

def KeepsOrder (layout : Layout) (old : Listing) : Prop :=
  ∀ pos pos', old.IsBoundary pos → old.IsBoundary pos' → pos < pos' →
    ∃ new new', layout.relocate pos = .ok new ∧ layout.relocate pos' = .ok new' ∧ new < new'

theorem compute_eq_error {old : Listing} {gap : Gap} (decoded : Listing.decode code = .ok old)
    (elsewhere : ¬ old.IsBoundary gap.offset) :
    compute code gap = .error (.notABoundary gap.offset) := by
  have missing : old.indexAt gap.offset = .error (.notABoundary gap.offset) := by
    rcases found : old.indexAt gap.offset with error | index
    · rw [Listing.indexAt] at found
      split at found
      · cases found
      · split at found
        · cases found
        · exact found.symm
    · exact absurd ((isBoundary_iff decoded).2 ⟨index, found⟩) elsewhere
  rw [compute, decoded, ok_bind, missing]
  rfl

theorem exists_final {old : Listing} {gap : Gap} (decoded : Listing.decode code = .ok old)
    (aimed : old.Aimed) (boundary : old.IsBoundary gap.offset) :
    ∃ final, (∀ layout, IsFinal old gap layout ↔ layout = final) ∧
      ((final.length ≤ maxLength ∧ compute code gap = .ok final) ∨
        ∃ length, maxLength < length ∧ length ≤ final.length ∧
          compute code gap = .error (tooLong length)) := by
  obtain ⟨gapIndex, found⟩ := (isBoundary_iff decoded).1 boundary
  have only := onlyBranches_replicate old
  obtain ⟨final, settles⟩ := exists_settles decoded found aimed only
  refine ⟨final, fun layout => ⟨?_, ?_⟩, ?_⟩
  · rintro ⟨index, found', settles'⟩
    cases found.symm.trans found'
    exact settles'.unique settles
  · rintro rfl
    exact ⟨gapIndex, found, settles⟩
  · rw [compute, decoded, ok_bind, found, ok_bind]
    exact settle_of_settles settles decoded only

end Layout

namespace Cursor

theorem exists_stages {cursor : Cursor} {gap : Gap} {layout : Layout}
    (laid : Layout.compute cursor.code.bytes gap = .ok layout)
    (anchored : cursor.code.Anchored layout.listing)
    (boundary : layout.listing.IsBoundary cursor.pos) :
    (∃ next, Stages cursor gap layout next) ∧ layout.KeepsOrder layout.listing := by
  obtain ⟨computed, rfl⟩ := Layout.computed_of_compute laid
  obtain ⟨bytes, emitted⟩ := computed.placed.exists_emit computed.decoded computed.gapIndex
    anchored.targets
  have opened := computed.opened emitted
  constructor
  · obtain ⟨handlers, protects⟩ := exists_mapM fun handler member =>
      computed.exists_handler opened (anchored.handlers handler member).1
        (anchored.handlers handler member).2
    obtain ⟨attributes, each⟩ := exists_forall₂ fun table member =>
      computed.exists_attribute (anchored.attributes table member)
    exact ⟨⟨⟨cursor.code.maxStack, cursor.code.maxLocals, bytes, handlers, attributes⟩, _⟩, laid,
      emitted, protects, changeAll_eq_none.2 each, computed.relocate_iff.2 ⟨boundary, rfl⟩, rfl, rfl⟩
  · intro pos pos' known known' less
    exact ⟨_, _, computed.relocate_iff.2 ⟨known, rfl⟩, computed.relocate_iff.2 ⟨known', rfl⟩,
      opened.land_lt_land known known' less⟩

structure Bench where
  cursor : Cursor
  copy : Code

/-- Open a gap stage by stage. Each stage writes its part of the copy, the debug tables row by row, and
behind the last of them the copy takes the place of the body. -/
def openGap (gap : Gap) : ExceptT Error (StateM Bench) Nat := do
  let cursor := (← get).cursor
  let layout ← Layout.compute cursor.code.bytes gap
  let bytes ← layout.emit
  modify fun bench => { bench with copy := { cursor.code with bytes } }
  let handlers ← cursor.code.handlers.relocate layout.relocate
  modify fun bench => { bench with copy.handlers := handlers }
  let (copy, failed) := (← get).copy.relocateDebug layout.relocate
  modify fun bench => { bench with copy }
  match failed with
  | some error => throw error
  | none => do
    let pos ← layout.relocate cursor.pos
    modify fun bench => { bench with cursor := ⟨bench.copy, pos⟩ }
    return layout.gapStart

theorem openGap_atomic (gap : Gap) (cursor : Cursor) (copy : Code) :
    ∃ left, outcome (openGap gap) ⟨cursor, copy⟩ = match cursor.insertGap gap with
      | .ok (start, next) => (.ok start, ⟨next, left⟩)
      | .error error => (.error error, ⟨cursor, left⟩) := by
  simp only [openGap, insertGap, outcome_bind, outcome_get, outcome_lift]
  rcases Layout.compute cursor.code.bytes gap with error | layout
  · exact ⟨copy, rfl⟩
  simp only [ok_bind]
  rcases layout.emit with error | bytes
  · exact ⟨copy, rfl⟩
  simp only [ok_bind, outcome_modify]
  rcases cursor.code.handlers.relocate layout.relocate with error | handlers
  · exact ⟨_, rfl⟩
  simp only [ok_bind, relocateDebug]
  rcases changeAll (BodyAttribute.relocate layout.relocate) cursor.code.attributes with
    ⟨attributes, _ | error⟩
  · simp only [outcome_bind, outcome_lift]
    rcases layout.relocate cursor.pos with error | pos
    · exact ⟨_, rfl⟩
    · exact ⟨_, rfl⟩
  · exact ⟨_, rfl⟩

/-- Opening a gap changes nothing where it fails. It fails for no other reason than the place of the gap
or the length of the code, if all offsets of the body are places of it. A length that is no word is not
reported: its sum overflows. -/
theorem openGap_outcome (cursor : Cursor) (gap : Gap) :
    (∀ copy, ∃ left, outcome (openGap gap) ⟨cursor, copy⟩ = match cursor.insertGap gap with
      | .ok (start, next) => (.ok start, ⟨next, left⟩)
      | .error error => (.error error, ⟨cursor, left⟩)) ∧
    ∀ old, Listing.decode cursor.code.bytes = .ok old → cursor.code.Anchored old →
      old.IsBoundary cursor.pos →
      (¬ old.IsBoundary gap.offset → cursor.insertGap gap = .error (.notABoundary gap.offset)) ∧
      (old.IsBoundary gap.offset → ∃ final, (∀ layout, Layout.IsFinal old gap layout ↔ layout = final) ∧
        (final.length ≤ maxLength →
          (∃ next, cursor.insertGap gap = .ok (final.gapStart, next)) ∧ final.KeepsOrder old) ∧
        (maxLength < final.length → ∃ length, maxLength < length ∧ length ≤ final.length ∧
          cursor.insertGap gap =
            .error (if length < wordLimit then .codeTooLong length else .overflow))) := by
  refine ⟨openGap_atomic gap cursor, fun old decoded anchored known => ⟨?_, fun boundary => ?_⟩⟩
  · intro elsewhere
    rw [insertGap, Layout.compute_eq_error decoded elsewhere]
    rfl
  · obtain ⟨final, unique, laid⟩ := Layout.exists_final decoded anchored.targets boundary
    refine ⟨final, unique, fun fits => ?_, fun long => ?_⟩
    · rcases laid with ⟨_, laid⟩ | ⟨length, exceeds, below, _⟩
      · obtain ⟨computed, rfl⟩ := Layout.computed_of_compute laid
        cases decoded.symm.trans computed.decoded
        obtain ⟨⟨next, stages⟩, ordered⟩ := exists_stages laid anchored known
        exact ⟨⟨next, insertGap_eq_ok.2 ⟨final, stages, rfl⟩⟩, ordered⟩
      · omega
    · rcases laid with ⟨fits, _⟩ | ⟨length, exceeds, below, refused⟩
      · omega
      · refine ⟨length, exceeds, below, ?_⟩
        rw [insertGap, refused]
        rfl

theorem loopListing_isBoundary {pos : Nat} (listed : pos = 0 ∨ pos = 1 ∨ pos = 4) :
    loopListing.IsBoundary pos := by
  rcases listed with rfl | rfl | rfl <;> simp [Listing.IsBoundary, loopListing]

theorem guardedLoop_anchored : guardedLoop.code.Anchored loopListing where
  targets := by
    have first : loopListing.IsBoundary 0 := loopListing_isBoundary (.inl rfl)
    simpa [Listing.Aimed, loopListing, Instruction.targets] using ⟨0, rfl, first⟩
  handlers handler member := by
    cases List.mem_singleton.1 member
    have test : loopListing.IsBoundary 1 := loopListing_isBoundary (.inr (.inl rfl))
    have behind : loopListing.IsBoundary 4 := loopListing_isBoundary (.inr (.inr rfl))
    exact ⟨⟨test, behind, behind⟩, by decide⟩
  attributes := by
    simp [guardedLoop, start, BodyAttribute.LiesOn, loopListing_isBoundary]

set_option maxRecDepth 4000 in
theorem openGap_outcome_loop :
    guardedLoop.insertGap ⟨2, 2, true⟩ = .error (.notABoundary 2) ∧
      (∃ final, Layout.IsFinal loopListing ⟨1, 2, false⟩ final ∧ final.length ≤ maxLength ∧
        final.KeepsOrder loopListing) ∧
      guardedLoop.insertGap ⟨5, 65531, false⟩ = .error (.codeTooLong 65536) ∧
      guardedLoop.insertGap ⟨5, 2 ^ 64 - 5, false⟩ = .error .overflow := by
  have decoded : Listing.decode guardedLoop.code.bytes = .ok loopListing := by cbv
  have known : loopListing.IsBoundary guardedLoop.pos := isBoundary_zero decoded
  refine ⟨?_, ?_, by cbv, by cbv⟩
  · have elsewhere : ¬ loopListing.IsBoundary 2 := by
      simp [Listing.IsBoundary, loopListing]
    exact ((openGap_outcome guardedLoop ⟨2, 2, true⟩).2 _ decoded guardedLoop_anchored known).1 elsewhere
  · have boundary : loopListing.IsBoundary 1 := loopListing_isBoundary (.inr (.inl rfl))
    obtain ⟨final, unique, fits, long⟩ := ((openGap_outcome guardedLoop ⟨1, 2, false⟩).2 _ decoded
      guardedLoop_anchored known).2 boundary
    have short : final.length ≤ maxLength := by
      by_contra more
      obtain ⟨length, _, _, refused⟩ := long (Nat.lt_of_not_le more)
      have opened : (guardedLoop.insertGap ⟨1, 2, false⟩).isOk = true := by cbv
      rw [refused] at opened
      cases opened
    exact ⟨final, (unique final).2 rfl, short, (fits short).2⟩

end Cursor
end ClassSplice.Code
