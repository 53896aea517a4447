import ClassSplice.Proofs.Layout.Insertion

/-!
Scans that insert code behind their cursor, between one step and the next. What a scan has come to is a
`Tour` of the body, and what holds of it at any time is `Underway`, which a step (`Underway.visit`) and an
insertion (`Underway.insert`) keep.

Main statement: `Scans.visits_each`.
-/

namespace ClassSplice.Code

structure Scan where
  cursor : Cursor
  /-- Where the instructions of the body stand by now, in their order. -/
  places : List Nat
  inserted : List (Nat × Nat)

/-- A place that the scan came to, and the scan at that time. -/
structure Visit where
  pos : Nat
  scan : Scan

namespace Scan

def start (code : Code) (old : Listing) : Scan :=
  ⟨Cursor.start code, old.entries.toList.map Prod.fst, []⟩

def insert (scan : Scan) (offset : Nat) (bytes : List UInt8) (exclusive : Bool) :
    Except Error Scan := do
  let layout ← Layout.compute scan.cursor.code.bytes ⟨offset, bytes.length, exclusive⟩
  let moved := layout.relocation
  let (start, cursor) ← scan.cursor.insert offset bytes exclusive
  let inserted := scan.inserted.map fun (first, stop) => (moved.place first, moved.enter stop)
  return ⟨cursor, scan.places.map moved.place, (start, start + bytes.length) :: inserted⟩

end Scan

/-- The places that a scan comes to, one after the other. Code may be inserted anywhere behind the
cursor, so also in front of what was visited last. -/
inductive Scans (first : Scan) : List Visit → Scan → Prop
  | start : Scans first [] first
  | visit {visits : List Visit} {scan : Scan} {pos : Nat} {cursor : Cursor}
      (before : Scans first visits scan) (stepped : scan.cursor.next = .ok (some (pos, cursor))) :
      Scans first (visits ++ [⟨pos, scan⟩]) { scan with cursor }
  | insert {visits : List Visit} {scan scan' : Scan} {offset : Nat} {bytes : List UInt8}
      {exclusive : Bool} (before : Scans first visits scan) (behind : offset < scan.cursor.pos)
      (whole : Whole bytes) (inserted : scan.insert offset bytes exclusive = .ok scan') :
      Scans first visits scan'

namespace Visit

def isOriginal (visit : Visit) : Bool :=
  visit.scan.places.contains visit.pos

/-- The visit is to the instruction of this number, in whatever form it stands there. -/
structure Shows (old : Listing) (number : Nat) (visit : Visit) : Prop where
  place : visit.scan.places[number]? = some visit.pos
  only : ∀ other : Nat, visit.scan.places[other]? = some visit.pos → other = number
  image : ∃ pos located image stop, old.entries[number]? = some (pos, located) ∧
    Image (fun _ _ => True) visit.pos located.instruction image ∧
    Runs visit.scan.cursor.code.bytes visit.pos image stop

/-- When the instruction of this number was visited, it was a branch that had been widened. -/
def FindsWide (old : Listing) (number : Nat) (visit : Visit) : Prop :=
  ∃ pos length opcode target, old.entries[number]? = some (pos, ⟨length, .branch opcode target⟩) ∧
    Widened visit.scan.cursor.code.bytes opcode visit.pos

/-- The visit is to the jump that belongs to the widened branch of this number. -/
def Completes (old : Listing) (number : Nat) (visit : Visit) : Prop :=
  ∃ pos length opcode target place,
    old.entries[number]? = some (pos, ⟨length, .branch opcode target⟩) ∧
      visit.scan.places[number]? = some place ∧
      Widened visit.scan.cursor.code.bytes opcode place ∧ visit.pos = place + 3

end Visit

def originals (visits : List Visit) : List Visit :=
  visits.filter Visit.isOriginal

theorem Cursor.next_of_reads {cursor : Cursor} {located : Located}
    (reads : Reads cursor.code.bytes cursor.pos located) :
    cursor.next = .ok (some (cursor.pos, cursor.moveTo (cursor.pos + located.length))) :=
  Cursor.next_of_measured reads.1

theorem Cursor.next_of_end {cursor : Cursor} (ended : cursor.pos = cursor.code.bytes.size) :
    cursor.next = .ok none :=
  Cursor.next_of_stops (.ended (Nat.le_of_eq ended.symm))

theorem Scan.insert_eq_ok {scan scan' : Scan} {offset : Nat} {bytes : List UInt8} {exclusive : Bool}
    (inserted : scan.insert offset bytes exclusive = .ok scan') :
    ∃ layout middle, scan.cursor.Inserts scan'.cursor offset bytes layout middle ∧
      scan'.places = scan.places.map layout.relocation.place ∧
      scan'.inserted = (layout.relocation.start, layout.relocation.start + bytes.length) ::
        scan.inserted.map fun (first, stop) =>
          (layout.relocation.place first, layout.relocation.enter stop) := by
  obtain ⟨layout, laid, inserted⟩ := bind_eq_ok.1 inserted
  obtain ⟨⟨start, cursor⟩, done, inserted⟩ := bind_eq_ok.1 inserted
  cases pure_eq_ok.1 inserted
  obtain ⟨⟨start', middle⟩, opened, done⟩ := bind_eq_ok.1 done
  obtain ⟨cursor', written, done⟩ := bind_eq_ok.1 done
  cases pure_eq_ok.1 done
  obtain ⟨layout', stages, rfl⟩ := Cursor.insertGap_eq_ok.1 opened
  cases laid.symm.trans stages.computed
  obtain ⟨computed, gap⟩ := Layout.computed_of_compute laid
  exact ⟨layout, middle, ⟨computed, by rw [gap], by rw [gap], stages.bytes, stages.pos,
    Cursor.overwrite_overwritten written⟩, rfl, rfl⟩

/-- What a scan has come to by now: as many instructions of the body as it has come to, in their order,
and the jump of the last of them if none is pending. -/
structure Tour (old : Listing) (visits : List Visit) (pending count : Nat) : Prop where
  number : (originals visits).length = count
  shows : ∀ (number : Nat) (visit : Visit), (originals visits)[number]? = some visit →
    visit.Shows old number
  others : ∀ visit ∈ visits, visit.isOriginal = false → ∃ (number : Nat) (earlier : Visit),
    (originals visits)[number]? = some earlier ∧ earlier.FindsWide old number ∧
      visit.Completes old number
  outside : ∀ visit ∈ visits, ∀ range ∈ visit.scan.inserted,
    ¬ (range.1 ≤ visit.pos ∧ visit.pos < range.2)
  few : visits.length + pending ≤ 2 * count
  wide : pending ≠ 0 → ∃ visit, (originals visits)[count - 1]? = some visit ∧
    visit.FindsWide old (count - 1)

section Tour

variable {old : Listing} {visits : List Visit} {visit : Visit} {pending count : Nat}

theorem originals_concat (visits : List Visit) (visit : Visit) :
    originals (visits ++ [visit]) =
      if visit.isOriginal then originals visits ++ [visit] else originals visits := by
  rw [originals, List.filter_append, List.filter_singleton]
  cases visit.isOriginal with
  | true => rfl
  | false => exact List.append_nil _

theorem getElem?_originals_concat {number : Nat} {earlier : Visit}
    (known : (originals visits)[number]? = some earlier) :
    (originals (visits ++ [visit]))[number]? = some earlier := by
  rw [originals_concat]
  split
  · rw [List.getElem?_append_left (List.getElem?_eq_some_iff.1 known).1]
    exact known
  · exact known

theorem Tour.original (tour : Tour old visits 0 count) (shows : visit.Shows old count)
    (outside : ∀ range ∈ visit.scan.inserted, ¬ (range.1 ≤ visit.pos ∧ visit.pos < range.2))
    (pending_le : pending ≤ 1) (wide : pending ≠ 0 → visit.FindsWide old count) :
    Tour old (visits ++ [visit]) pending (count + 1) := by
  have original : visit.isOriginal = true := by
    rw [Visit.isOriginal, List.contains_iff_mem]
    exact List.mem_of_getElem? shows.place
  have listed : originals (visits ++ [visit]) = originals visits ++ [visit] := by
    rw [originals_concat, if_pos original]
  have last : (originals visits ++ [visit])[count]? = some visit := by
    rw [← tour.number, List.getElem?_concat_length]
  refine ⟨?_, ?_, ?_, ?_, ?_, ?_⟩
  · rw [listed, List.length_append, tour.number]
    rfl
  · intro number other known
    rw [listed] at known
    rcases Nat.lt_trichotomy number count with less | rfl | greater
    · rw [List.getElem?_append_left (tour.number ▸ less)] at known
      exact tour.shows number other known
    · cases last.symm.trans known
      exact shows
    · have := (List.getElem?_eq_some_iff.1 known).1
      rw [List.length_append, tour.number, List.length_singleton] at this
      omega
  · intro other member different
    rcases List.mem_append.1 member with before | here
    · obtain ⟨number, earlier, known, found, completes⟩ := tour.others other before different
      exact ⟨number, earlier, getElem?_originals_concat known, found, completes⟩
    · rw [List.mem_singleton.1 here] at different
      exact absurd (original.symm.trans different) Bool.false_ne_true.symm
  · intro other member
    rcases List.mem_append.1 member with before | here
    · exact tour.outside other before
    · rw [List.mem_singleton.1 here]
      exact outside
  · have := tour.few
    rw [List.length_append, List.length_singleton]
    omega
  · intro more
    rw [listed]
    exact ⟨visit, last, wide more⟩

theorem Tour.jump (tour : Tour old visits 1 count) (other : visit.isOriginal = false)
    (outside : ∀ range ∈ visit.scan.inserted, ¬ (range.1 ≤ visit.pos ∧ visit.pos < range.2))
    (completes : visit.Completes old (count - 1)) : Tour old (visits ++ [visit]) 0 count := by
  have same : originals (visits ++ [visit]) = originals visits := by
    rw [originals_concat, other]
    rfl
  refine ⟨?_, ?_, ?_, ?_, ?_, fun none => absurd rfl none⟩
  · rw [same]
    exact tour.number
  · rw [same]
    exact tour.shows
  · intro another member different
    rcases List.mem_append.1 member with before | here
    · rw [same]
      exact tour.others another before different
    · obtain ⟨earlier, known, wide⟩ := tour.wide Nat.one_ne_zero
      rw [List.mem_singleton.1 here]
      exact ⟨count - 1, earlier, getElem?_originals_concat known, wide, completes⟩
  · intro another member
    rcases List.mem_append.1 member with before | here
    · exact tour.outside another before
    · rw [List.mem_singleton.1 here]
      exact outside
  · have := tour.few
    rw [List.length_append, List.length_singleton]
    omega

end Tour

structure Underway (old : Listing) (visits : List Visit) (scan : Scan) (pending count : Nat) :
    Prop where
  stands : ∃ now, Listing.decode scan.cursor.code.bytes = .ok now ∧
    now.IsBoundary scan.cursor.pos ∧ (∀ place ∈ scan.places, now.IsBoundary place) ∧
    ∀ range ∈ scan.inserted, now.IsBoundary range.2 ∧ range.2 ≤ scan.cursor.pos
  ordered : scan.places.Pairwise (· < ·)
  facing : Facing scan.cursor.code.bytes scan.places
    (old.entries.toList.map fun entry => entry.2.instruction) pending count scan.cursor.pos
  behind : ∀ visit ∈ visits, visit.pos < scan.cursor.pos
  tour : Tour old visits pending count

section Underway

variable {old : Listing} {visits : List Visit} {scan scan' : Scan} {pending count : Nat}

theorem Underway.insert {offset : Nat} {bytes : List UInt8} {exclusive : Bool}
    (underway : Underway old visits scan pending count) (behind : offset < scan.cursor.pos)
    (whole : Whole bytes) (inserted : scan.insert offset bytes exclusive = .ok scan') :
    Underway old visits scan' pending count := by
  obtain ⟨layout, middle, inserts, samePlaces, sameRanges⟩ := Scan.insert_eq_ok inserted
  obtain ⟨now, decoded, boundary, places, ranges⟩ := underway.stands
  cases decoded.symm.trans inserts.computed.decoded
  obtain ⟨new, decoded', kept⟩ := inserts.decode whole
  have opened := inserts.opened
  obtain ⟨entered, landed⟩ := inserts.place_eq behind
  have moved : scan'.cursor.pos = layout.relocation.place scan.cursor.pos := by
    rw [inserts.written.pos, (inserts.computed.relocate_iff.1 inserts.pos).2, landed]
  refine ⟨⟨new, decoded', ?_, ?_, ?_⟩, ?_, ?_, ?_, underway.tour⟩
  · rw [moved]
    exact (kept boundary).2
  · rw [samePlaces]
    intro place member
    obtain ⟨before, known, rfl⟩ := List.mem_map.1 member
    exact (kept (places before known)).2
  · rw [sameRanges, moved]
    intro range member
    rcases List.mem_cons.1 member with rfl | member
    · rw [← inserts.place_offset]
      exact ⟨(kept inserts.boundary).2,
        opened.place_mono inserts.boundary boundary (Nat.le_of_lt behind)⟩
    · obtain ⟨⟨first, stop⟩, known, rfl⟩ := List.mem_map.1 member
      obtain ⟨ends, before⟩ := ranges _ known
      refine ⟨(kept ends).1, ?_⟩
      rw [← entered]
      exact opened.enter_mono ends boundary before
  · rw [samePlaces, List.pairwise_map]
    refine underway.ordered.imp_of_mem fun first second less => ?_
    have := opened.ordered (places _ first) (places _ second) less
    exact Nat.lt_of_lt_of_le this (opened.enter_le_place _)
  · rw [samePlaces, moved]
    exact inserts.facing behind boundary places underway.facing
  · intro visit member
    rw [moved, ← entered]
    exact Nat.lt_of_lt_of_le (underway.behind visit member) (opened.forward boundary)

theorem exists_entry {instruction : Instruction} {number : Nat}
    (known : (old.entries.toList.map fun entry => entry.2.instruction)[number]? = some instruction) :
    ∃ pos length, old.entries[number]? = some (pos, ⟨length, instruction⟩) := by
  rw [List.getElem?_map, Array.getElem?_toList, Option.map_eq_some_iff] at known
  obtain ⟨⟨pos, length, _⟩, known, rfl⟩ := known
  exact ⟨pos, length, known⟩

theorem not_mem_of_between {places : List Nat} {count place pos : Nat}
    (ordered : places.Pairwise (· < ·)) (known : places[count]? = some place) (above : place < pos)
    (below : ∀ later ∈ places.drop (count + 1), pos < later) : pos ∉ places := by
  intro member
  rw [← List.take_append_drop (count + 1) places] at member
  rcases List.mem_append.1 member with before | after
  · obtain ⟨index, inRange, rfl⟩ := List.mem_iff_getElem.1 before
    obtain ⟨inside, rfl⟩ := List.getElem?_eq_some_iff.1 known
    rw [List.length_take] at inRange
    rw [List.getElem_take] at above
    rcases Nat.lt_or_eq_of_le (show index ≤ count by omega) with less | rfl
    · have := List.pairwise_iff_getElem.1 ordered index count (by omega) inside less
      omega
    · exact Nat.lt_irrefl _ above
  · exact Nat.lt_irrefl _ (below pos after)

theorem Underway.stands_behind {located : Located} (underway : Underway old visits scan pending count)
    (reads : Reads scan.cursor.code.bytes scan.cursor.pos located) :
    ∃ now, Listing.decode scan.cursor.code.bytes = .ok now ∧
      now.IsBoundary (scan.cursor.pos + located.length) ∧
      (∀ place ∈ scan.places, now.IsBoundary place) ∧
      ∀ range ∈ scan.inserted, now.IsBoundary range.2 ∧ range.2 ≤ scan.cursor.pos + located.length := by
  obtain ⟨now, decoded, boundary, places, ranges⟩ := underway.stands
  refine ⟨now, decoded, (boundary.runs decoded (.single reads)).2, places, fun range member => ?_⟩
  exact ⟨(ranges range member).1, Nat.le_trans (ranges range member).2 (Nat.le_add_right _ _)⟩

theorem Underway.outside (underway : Underway old visits scan pending count) :
    ∀ range ∈ scan.inserted, ¬ (range.1 ≤ scan.cursor.pos ∧ scan.cursor.pos < range.2) := by
  obtain ⟨_, _, _, _, ranges⟩ := underway.stands
  intro range member inside
  exact Nat.not_lt_of_le (ranges range member).2 inside.2

theorem Underway.behind_visit {located : Located} (underway : Underway old visits scan pending count)
    (reads : Reads scan.cursor.code.bytes scan.cursor.pos located) :
    ∀ visit ∈ visits ++ [⟨scan.cursor.pos, scan⟩],
      visit.pos < scan.cursor.pos + located.length := by
  intro visit member
  have := reads.length_pos
  rcases List.mem_append.1 member with before | here
  · exact Nat.lt_add_right _ (underway.behind visit before)
  · rw [List.mem_singleton.1 here]
    exact Nat.lt_add_of_pos_right this

theorem Underway.visit {pos : Nat} {cursor : Cursor}
    (underway : Underway old visits scan pending count)
    (stepped : scan.cursor.next = .ok (some (pos, cursor))) :
    ∃ pending count, Underway old (visits ++ [⟨pos, scan⟩]) { scan with cursor } pending count := by
  have advances := underway.facing.advances
  have tour := underway.tour
  generalize here : scan.cursor.pos = start at advances
  cases advances with
  | ended ended all =>
      cases stepped.symm.trans (Cursor.next_of_end (here.trans ended))
  | @original _ pending stop located instruction image reads known original is run wide pending_le facing =>
      subst here
      cases stepped.symm.trans (Cursor.next_of_reads reads)
      obtain ⟨origin, length, listed⟩ := exists_entry original
      refine ⟨pending, count + 1, underway.stands_behind reads, underway.ordered, facing,
        underway.behind_visit reads, ?_⟩
      refine tour.original ⟨known, fun other same => ?_, origin, _, image, stop, listed, is, run⟩
        underway.outside pending_le fun more => ?_
      · have distinct : scan.places.Nodup := underway.ordered.imp Nat.ne_of_lt
        exact (List.getElem?_inj (List.getElem?_eq_some_iff.1 same).1 distinct).1 (same.trans known.symm)
      · obtain ⟨opcode, target, rfl, widened⟩ := wide more
        exact ⟨origin, length, opcode, target, listed, widened⟩
  | @jump count place located opcode target reads known original widened behind further facing =>
      subst here
      cases stepped.symm.trans (Cursor.next_of_reads reads)
      obtain ⟨origin, length, listed⟩ := exists_entry original
      refine ⟨0, count + 1, underway.stands_behind reads, underway.ordered, facing,
        underway.behind_visit reads, ?_⟩
      refine tour.jump ?_ underway.outside ⟨origin, length, opcode, target, place, listed, known, widened,
        behind⟩
      have missing : scan.cursor.pos ∉ scan.places :=
        not_mem_of_between underway.ordered known (by omega) further
      simpa [Visit.isOriginal] using missing

theorem underway_start {code : Code} (decoded : Listing.decode code.bytes = .ok old) :
    Underway old [] (Scan.start code old) 0 0 := by
  obtain ⟨run, size⟩ := decode_eq_ok.1 decoded
  refine ⟨⟨old, decoded, isBoundary_zero decoded, ?_, ?_⟩, ?_, .whole ?_, ?_, ?_⟩
  · intro place member
    obtain ⟨⟨_, located⟩, listed, rfl⟩ := List.mem_map.1 member
    exact .inr ⟨located, Array.mem_toList_iff.1 listed⟩
  · exact fun _ member => absurd member List.not_mem_nil
  · exact List.pairwise_map.2 run.pairwise
  · exact .of_runs (size ▸ run)
  · exact fun _ member => absurd member List.not_mem_nil
  · exact ⟨rfl, by simp [originals], by simp, by simp, Nat.le_refl _, fun none => absurd rfl none⟩

theorem Scans.underway {code : Code} {last : Scan} (decoded : Listing.decode code.bytes = .ok old)
    (run : Scans (Scan.start code old) visits last) :
    ∃ pending count, Underway old visits last pending count := by
  induction run with
  | start => exact ⟨0, 0, underway_start decoded⟩
  | visit _ stepped ih =>
      obtain ⟨pending, count, underway⟩ := ih
      exact underway.visit stepped
  | insert _ behind whole inserted ih =>
      obtain ⟨pending, count, underway⟩ := ih
      exact ⟨pending, count, underway.insert behind whole inserted⟩

theorem Tour.count_le (tour : Tour old visits pending count) : count ≤ old.size := by
  rcases Nat.eq_zero_or_pos count with rfl | positive
  · exact Nat.zero_le _
  · have inRange : count - 1 < (originals visits).length := by
      rw [tour.number]
      exact Nat.sub_one_lt_of_lt positive
    have shows := tour.shows _ _ (List.getElem?_eq_getElem inRange)
    obtain ⟨_, _, _, _, listed, _⟩ := shows.image
    have := (Array.getElem?_eq_some_iff.1 listed).1
    show count ≤ old.entries.size
    omega

/-- A scan that inserts code behind its cursor comes to every instruction of the body once, in their
order and where it stands at that time, and to nothing else but the jumps of branches that were widened
before it came to them. It never comes to inserted code, and it ends. -/
theorem Scans.visits_each {code : Code} {last : Scan} (decoded : Listing.decode code.bytes = .ok old)
    (run : Scans (Scan.start code old) visits last) :
    (∀ (number : Nat) (visit : Visit), (originals visits)[number]? = some visit →
      visit.Shows old number) ∧
    (∀ visit ∈ visits, visit.isOriginal = false → ∃ (number : Nat) (earlier : Visit),
      (originals visits)[number]? = some earlier ∧ earlier.FindsWide old number ∧
        visit.Completes old number) ∧
    (∀ visit ∈ visits, visit.pos < last.cursor.pos ∧
      ∀ range ∈ visit.scan.inserted, ¬ (range.1 ≤ visit.pos ∧ visit.pos < range.2)) ∧
    visits.length ≤ 2 * old.size ∧
    ((∃ pos cursor, last.cursor.next = .ok (some (pos, cursor))) ∨
      last.cursor.next = .ok none ∧ (originals visits).length = old.size) := by
  obtain ⟨pending, count, underway⟩ := run.underway decoded
  have tour := underway.tour
  have bounded := tour.count_le
  refine ⟨tour.shows, tour.others, fun visit member => ⟨underway.behind visit member,
    tour.outside visit member⟩, ?_, ?_⟩
  · have := tour.few
    omega
  · have advances := underway.facing.advances
    generalize here : last.cursor.pos = start at advances
    cases advances with
    | ended ended all =>
        refine .inr ⟨Cursor.next_of_end (here.trans ended), ?_⟩
        rw [List.length_map, Array.length_toList] at all
        rw [tour.number]
        exact Nat.le_antisymm bounded all
    | original reads =>
        subst here
        exact .inl ⟨_, _, Cursor.next_of_reads reads⟩
    | jump reads =>
        subst here
        exact .inl ⟨_, _, Cursor.next_of_reads reads⟩

set_option maxRecDepth 4000 in
theorem visits_each_loop :
    ∃ visits last, Scans (Scan.start Cursor.loopBody.code Cursor.loopListing) visits last ∧
      visits.map Visit.pos = [0, 2, 5] ∧ last.cursor.next = .ok none ∧
      (originals visits).length = 3 := by
  have decoded : Listing.decode Cursor.loopBody.code.bytes = .ok Cursor.loopListing := by cbv
  let grown : Code := ⟨1, 1, #[0x00, 0x1a, 0x99, 0xff, 0xff, 0xb1], [], []⟩
  let scan (pos : Nat) : Scan := ⟨⟨grown, pos⟩, [1, 2, 5], [(0, 1)]⟩
  have first : (Scan.start Cursor.loopBody.code Cursor.loopListing).cursor.next =
      .ok (some (0, ⟨Cursor.loopBody.code, 1⟩)) := by cbv
  have whole : Whole [0x00] := ⟨⟨#[(0, ⟨1, .plain [0x00]⟩)], 1⟩, by cbv, by simp [Instruction.isSwitch]⟩
  have inserted : Scan.insert ⟨⟨Cursor.loopBody.code, 1⟩, [0, 1, 4], []⟩ 0 [0x00] true =
      .ok (scan 2) := by cbv
  have second : (scan 2).cursor.next = .ok (some (2, ⟨grown, 5⟩)) := by cbv
  have third : (scan 5).cursor.next = .ok (some (5, ⟨grown, 6⟩)) := by cbv
  have run : Scans (Scan.start Cursor.loopBody.code Cursor.loopListing) _ _ :=
    .visit (.visit (.insert (.visit .start first) (show 0 < 1 by decide) whole inserted) second) third
  refine ⟨_, _, run, rfl, by cbv, ?_⟩
  obtain ⟨_, _, _, _, ⟨_, _, more⟩ | ⟨_, all⟩⟩ := Scans.visits_each decoded run
  · have ended : (⟨grown, 6⟩ : Cursor).next = .ok none := by cbv
    cases ended.symm.trans more
  · exact all

end Underway

end ClassSplice.Code
