import ClassSplice.Proofs.Layout.Opening

namespace ClassSplice.Code

def Relocation.nopsAt (moved : Relocation) (pos : Nat) : List (Nat × Located) :=
  if pos = moved.gap.offset then nopsFrom moved.start moved.gap.length else []

structure Spliced (old new : Listing) (moved : Relocation) (images : Nat → List (Nat × Located)) :
    Prop where
  boundary : old.IsBoundary moved.gap.offset
  behind : moved.place moved.gap.offset = moved.start + moved.gap.length
  stop : moved.place old.next = new.next
  entries : new.entries.toList =
    old.entries.toList.flatMap (fun entry => moved.nopsAt entry.1 ++ images entry.1) ++
      moved.nopsAt old.next
  image : ∀ {pos : Nat} {located : Located}, (pos, located) ∈ old.entries →
    Image (moved.Lands old) (moved.place pos) located.instruction (images pos)

section Opened

variable {old : Listing} {moved : Relocation} {code code' : Array UInt8}

theorem Opened.runs_nopsAt (opened : Opened old moved code) (pos : Nat) :
    Runs code (moved.enter pos) (moved.nopsAt pos) (moved.place pos) := by
  unfold Relocation.enter Relocation.nopsAt
  by_cases here : pos = moved.gap.offset
  · rw [if_pos here, if_pos here, here, opened.behind]
    exact runs_nopsFrom opened.gap
  · rw [if_neg here, if_neg here]
    exact .done _

theorem Opened.enter_le_place (opened : Opened old moved code) (pos : Nat) :
    moved.enter pos ≤ moved.place pos :=
  (opened.runs_nopsAt pos).le

theorem Opened.enter_inj (opened : Opened old moved code) {pos pos' : Nat}
    (boundary : old.IsBoundary pos) (boundary' : old.IsBoundary pos')
    (same : moved.enter pos = moved.enter pos') : pos = pos' := by
  rcases Nat.lt_trichotomy pos pos' with less | equal | greater
  · have := opened.ordered boundary boundary' less
    have := opened.enter_le_place pos
    omega
  · exact equal
  · have := opened.ordered boundary' boundary greater
    have := opened.enter_le_place pos'
    omega

theorem Opened.enter_mono (opened : Opened old moved code) {pos pos' : Nat}
    (boundary : old.IsBoundary pos) (boundary' : old.IsBoundary pos') (ordered : pos ≤ pos') :
    moved.enter pos ≤ moved.enter pos' := by
  rcases Nat.lt_or_eq_of_le ordered with less | rfl
  · exact Nat.le_of_lt (Nat.lt_of_le_of_lt (opened.enter_le_place pos)
      (opened.ordered boundary boundary' less))
  · exact Nat.le_refl _

theorem Opened.place_mono (opened : Opened old moved code) {pos pos' : Nat}
    (boundary : old.IsBoundary pos) (boundary' : old.IsBoundary pos') (ordered : pos ≤ pos') :
    moved.place pos ≤ moved.place pos' := by
  rcases Nat.lt_or_eq_of_le ordered with less | rfl
  · exact Nat.le_of_lt (Nat.lt_of_lt_of_le (opened.ordered boundary boundary' less)
      (opened.enter_le_place pos'))
  · exact Nat.le_refl _

theorem Opened.runs_images (opened : Opened old moved code)
    (images : Nat → List (Nat × Located)) {entries : List (Nat × Located)} {start stop : Nat}
    (run : Runs code' start entries stop)
    (each : ∀ entry ∈ entries, Runs code (moved.place entry.1) (images entry.1)
      (moved.enter (entry.1 + entry.2.length))) :
    Runs code (moved.enter start)
      (entries.flatMap fun entry => moved.nopsAt entry.1 ++ images entry.1) (moved.enter stop) := by
  induction run with
  | done => exact .done _
  | @step pos stop located entries reads rest ih =>
      rw [List.flatMap_cons]
      have image := each _ List.mem_cons_self
      apply Runs.append ((opened.runs_nopsAt pos).append image)
      apply ih
      intro entry member
      exact each entry (List.mem_cons_of_mem _ member)

theorem Opened.runs_images_of_ne (opened : Opened old moved code)
    (images : Nat → List (Nat × Located)) {entries : List (Nat × Located)} {start stop : Nat}
    (run : Runs code' start entries stop)
    (each : ∀ entry ∈ entries, Runs code (moved.place entry.1) (images entry.1)
      (moved.enter (entry.1 + entry.2.length)))
    (away : ∀ entry ∈ entries, entry.1 ≠ moved.gap.offset) :
    Runs code (moved.enter start) (entries.flatMap fun entry => images entry.1) (moved.enter stop) := by
  have same : entries.flatMap (fun entry => moved.nopsAt entry.1 ++ images entry.1) =
      entries.flatMap fun entry => images entry.1 := by
    apply List.flatMap_congr
    intro entry member
    rw [Relocation.nopsAt, if_neg (away entry member), List.nil_append]
  rw [← same]
  exact opened.runs_images images run each

theorem Opened.runs_images_behind (opened : Opened old moved code)
    (images : Nat → List (Nat × Located)) {entries : List (Nat × Located)} {start stop : Nat}
    (run : Runs code' start entries stop) (nonempty : entries ≠ [])
    (each : ∀ entry ∈ entries, Runs code (moved.place entry.1) (images entry.1)
      (moved.enter (entry.1 + entry.2.length)))
    (away : ∀ entry ∈ entries, start < entry.1 → entry.1 ≠ moved.gap.offset) :
    Runs code (moved.place start) (entries.flatMap fun entry => images entry.1) (moved.enter stop) := by
  rcases run.inv with ⟨empty, _⟩ | ⟨located, rest, rfl, reads, behind⟩
  · exact absurd empty nonempty
  · have positive := reads.length_pos
    have further := opened.runs_images_of_ne images behind
      (fun entry member => each entry (List.mem_cons_of_mem _ member)) fun entry member => by
        have := (behind.mem_bounds (show (entry.1, entry.2) ∈ rest from member)).2.1
        exact away entry (List.mem_cons_of_mem _ member) (by omega)
    exact (each _ List.mem_cons_self).append further

theorem Opened.exists_images (opened : Opened old moved code)
    (decoded : Listing.decode code' = .ok old) :
    ∃ images : Nat → List (Nat × Located), ∀ {pos : Nat} {located : Located},
      (pos, located) ∈ old.entries →
        Image (moved.Lands old) (moved.place pos) located.instruction (images pos) ∧
          Runs code (moved.place pos) (images pos) (moved.enter (pos + located.length)) := by
  have chosen : ∀ pos, ∃ image, ∀ located, (pos, located) ∈ old.entries →
      Image (moved.Lands old) (moved.place pos) located.instruction image ∧
        Runs code (moved.place pos) image (moved.enter (pos + located.length)) := by
    intro pos
    by_cases known : ∃ located, (pos, located) ∈ old.entries
    · obtain ⟨located, member⟩ := known
      obtain ⟨image, is, run⟩ := opened.image member
      refine ⟨image, fun other member' => ?_⟩
      cases located_unique decoded member member'
      exact ⟨is, run⟩
    · exact ⟨[], fun located member => absurd ⟨located, member⟩ known⟩
  choose images each using chosen
  exact ⟨images, fun member => each _ _ member⟩

theorem Opened.runs_images_front (opened : Opened old moved code)
    (decoded : Listing.decode code' = .ok old) (front : moved.gap.offset = 0)
    (images : Nat → List (Nat × Located))
    (each : ∀ {pos : Nat} {located : Located}, (pos, located) ∈ old.entries →
      Runs code (moved.place pos) (images pos) (moved.enter (pos + located.length))) :
    Runs code (moved.place 0) (old.entries.toList.flatMap fun entry => images entry.1) code.size := by
  have run := (decode_eq_ok.1 decoded).1
  rw [← opened.stop]
  by_cases empty : old.entries.toList = []
  · rcases run.inv with ⟨_, ended⟩ | ⟨located, rest, listed, _⟩
    · rw [empty, ← ended]
      exact .done _
    · exact absurd (empty.symm.trans listed) (List.cons_ne_nil _ _).symm
  · have behind := opened.runs_images_behind images run empty
      (fun entry member => each (Array.mem_toList_iff.1 member)) fun entry _ more => by
        rw [front]
        exact Nat.ne_of_gt more
    have last : old.next ≠ moved.gap.offset := by
      rw [front]
      exact Nat.ne_of_gt (run.lt empty)
    rwa [Relocation.enter, if_neg last] at behind

theorem Opened.decode (opened : Opened old moved code)
    (decoded : Listing.decode code' = .ok old) :
    ∃ new images, Listing.decode code = .ok new ∧ Spliced old new moved images := by
  obtain ⟨images, each⟩ := opened.exists_images decoded
  have body := opened.runs_images images (decode_eq_ok.1 decoded).1 fun entry member =>
    (each (Array.mem_toList_iff.1 member)).2
  have whole := body.append (opened.runs_nopsAt old.next)
  rw [opened.first, opened.stop] at whole
  exact ⟨_, images, decode_of_runs whole, opened.boundary, opened.behind, opened.stop, rfl,
    fun member => (each member).1⟩

theorem Opened.boundaries {new : Listing} {pos : Nat} (opened : Opened old moved code)
    (decoded : Listing.decode code' = .ok old) (decoded' : Listing.decode code = .ok new)
    (boundary : old.IsBoundary pos) :
    new.IsBoundary (moved.enter pos) ∧ new.IsBoundary (moved.place pos) := by
  obtain ⟨images, each⟩ := opened.exists_images decoded
  obtain ⟨front, back, listed, before, _⟩ := (isBoundary_iff_runs decoded).1 boundary
  have entered := opened.runs_images images before fun entry member => by
    refine (each (Array.mem_toList_iff.1 ?_)).2
    rw [listed]
    exact List.mem_append_left _ member
  rw [opened.first] at entered
  have reached := ((isBoundary_zero decoded').runs decoded' entered).2
  exact ⟨reached, (reached.runs decoded' (opened.runs_nopsAt pos)).2⟩

end Opened

theorem Runs.stays {moved : Relocation} {code : Array UInt8} {pos : Nat}
    {image : List (Nat × Located)} {instruction : Instruction}
    (run : Runs code (moved.place pos) image (moved.enter (pos + 3)))
    (stays : Runs code (moved.place pos) [(moved.place pos, ⟨3, instruction⟩)] (moved.enter (pos + 3)))
    (away : moved.gap.offset ≠ pos + 3) :
    image = [(moved.place pos, ⟨3, instruction⟩)] ∧ moved.place (pos + 3) = moved.place pos + 3 := by
  refine ⟨run.unique stays, ?_⟩
  obtain ⟨_, _, behind⟩ := runs_singleton.1 stays
  rwa [Relocation.enter, if_neg away.symm] at behind

namespace Cursor

/-- Opening a gap rewrites a body to the images of its instructions, with the gap among them. -/
theorem decode_insertGap {cursor next : Cursor} {gap : Gap} {start : Nat}
    (inserted : cursor.insertGap gap = .ok (start, next)) :
    ∃ old new place images, Listing.decode cursor.code.bytes = .ok old ∧
      Listing.decode next.code.bytes = .ok new ∧ Spliced old new ⟨gap, start, place⟩ images := by
  obtain ⟨old, place, opened⟩ := insertGap_opened inserted
  obtain ⟨new, images, decoded, spliced⟩ := opened.code.decode opened.decoded
  exact ⟨old, new, place, images, opened.decoded, decoded, spliced⟩

def loopBody : Cursor :=
  start ⟨1, 1, #[0x1a, 0x99, 0xff, 0xff, 0xb1], [], []⟩

def loopListing : Listing :=
  ⟨#[(0, ⟨1, .plain [0x1a]⟩), (1, ⟨3, .branch 0x99 0⟩), (4, ⟨1, .plain [0xb1]⟩)], 5⟩

set_option maxRecDepth 4000 in
theorem decode_insertGap_loop :
    ∃ next, loopBody.insertGap ⟨0, 2, true⟩ = .ok (0, next) ∧
      ∃ old new place images, Listing.decode loopBody.code.bytes = .ok old ∧
        Listing.decode next.code.bytes = .ok new ∧ Spliced old new ⟨⟨0, 2, true⟩, 0, place⟩ images := by
  have inserted : loopBody.insertGap ⟨0, 2, true⟩ =
      .ok (0, ⟨⟨1, 1, #[0x00, 0x00, 0x1a, 0x99, 0xff, 0xff, 0xb1], [], []⟩, 2⟩) := by
    cbv
  exact ⟨_, inserted, decode_insertGap inserted⟩

end Cursor
end ClassSplice.Code
