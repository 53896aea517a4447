import ClassSplice.Proofs.Edit.After
import ClassSplice.Proofs.Layout.Closed

/-!
Calls of a subroutine out of which nothing leads. However far away the returns are, and however many there
are, the scan comes to each of them once, and the subroutine moves as it is, so that every call leads to its
first byte. `Serving` is the invariant of the scan; code in which no gap can be opened is left as it is
(`Idle`).

Main statement: `callBeforeReturns_served`.
-/

namespace ClassSplice

namespace Code

variable {code : Array UInt8} {listing : Listing}

def Listing.returns (listing : Listing) (among : Nat → Bool) : Nat :=
  listing.entries.countP fun entry => entry.2.instruction.isReturn && among entry.1

theorem Listing.returns_congr {among among' : Nat → Bool}
    (same : ∀ {pos : Nat} {located : Located}, (pos, located) ∈ listing.entries →
      located.instruction.IsReturn → (among pos = true ↔ among' pos = true)) :
    listing.returns among = listing.returns among' := by
  rw [returns, returns, ← Array.countP_toList, ← Array.countP_toList]
  refine List.countP_congr fun entry member => ?_
  rw [Bool.and_eq_true, Bool.and_eq_true]
  exact and_congr_right fun returns =>
    same (Array.mem_toList_iff.1 member) (Instruction.isReturn_iff.1 returns)

theorem Listing.returns_succ (decoded : Listing.decode code = .ok listing) {here : Nat} {located : Located}
    (member : (here, located) ∈ listing.entries) (returns : located.instruction.IsReturn) :
    listing.returns (fun pos => decide (pos < here + 1)) =
      listing.returns (fun pos => decide (pos < here)) + 1 := by
  obtain ⟨front, back, listed, before, reads, behind⟩ :=
    (decode_eq_ok.1 decoded).1.split (Array.mem_toList_iff.2 member)
  have first : front.countP (fun entry => entry.2.instruction.isReturn && decide (entry.1 < here + 1)) =
      front.countP fun entry => entry.2.instruction.isReturn && decide (entry.1 < here) := by
    refine List.countP_congr fun ⟨pos, earlier⟩ member => ?_
    obtain ⟨reads, _, behind⟩ := before.mem_bounds member
    have := reads.length_pos
    rw [Bool.and_eq_true, Bool.and_eq_true, decide_eq_true_eq, decide_eq_true_eq]
    exact and_congr_right fun _ => by omega
  have later (limit : Nat) (low : limit ≤ here + 1) :
      back.countP (fun entry => entry.2.instruction.isReturn && decide (entry.1 < limit)) = 0 := by
    refine List.countP_eq_zero.2 fun ⟨pos, further⟩ member both => ?_
    obtain ⟨_, above, _⟩ := behind.mem_bounds member
    have := reads.length_pos
    have := of_decide_eq_true (Bool.and_eq_true_iff.1 both).2
    omega
  rw [Listing.returns, Listing.returns, ← Array.countP_toList, ← Array.countP_toList, listed,
    List.countP_append, List.countP_append, List.countP_cons, List.countP_cons, first,
    later _ (Nat.le_refl _), later _ (Nat.le_succ _)]
  simp [Instruction.isReturn_iff.2 returns]

end Code

namespace Edit

open Code (Cursor Listing Located Opcode Weaving Woven)

variable {cursor next : Cursor} {pos length : Nat} {entries : List (Nat × Located)}

theorem size_le_of_opened {moved : Code.Relocation} {old : Listing}
    (opened : Cursor.Opened cursor next old moved) : cursor.code.bytes.size ≤ Code.maxLength :=
  calc
    cursor.code.bytes.size = old.next := (Code.decode_eq_ok.1 opened.decoded).2.symm
    _ ≤ moved.enter old.next := opened.code.forward (.inl rfl)
    _ ≤ moved.place old.next := opened.code.enter_le_place old.next
    _ = next.code.bytes.size := opened.code.stop
    _ ≤ Code.maxLength := opened.bounded

theorem openCall_carries {start call : Nat} {isWide : Bool}
    (opened : openCall cursor pos length = .ok (call, isWide, next)) (before : pos < cursor.pos)
    (carries : Cursor.Carries start entries cursor) : Cursor.Carries start entries next := by
  unfold openCall at opened
  split at opened
  · obtain ⟨⟨_, _⟩, inserted, finished⟩ := bind_eq_ok.1 opened
    cases pure_eq_ok.1 finished
    exact Cursor.insertGap_carries inserted before carries
  · obtain ⟨⟨first, middle⟩, inserted, opened⟩ := bind_eq_ok.1 opened
    -- The gap is made larger where it begins, which is in front of the cursor still.
    have carried := Cursor.insertGap_carries inserted before carries
    have behind := Cursor.insertGap_before inserted before
    dsimp only at opened
    split at opened
    · obtain ⟨⟨_, _⟩, inserted', finished⟩ := bind_eq_ok.1 opened
      cases pure_eq_ok.1 finished
      exact Cursor.insertGap_carries inserted' (Nat.lt_of_add_right_lt behind) carried
    · cases pure_eq_ok.1 opened
      exact carried

variable {base : Array UInt8} {old : Listing} {weaving : Weaving} {entry here : Nat}

theorem callBefore_carries {start : Nat} (decoded : Listing.decode base = .ok old)
    (woven : Woven old weaving cursor.code.bytes) (boundary : old.IsBoundary here)
    (empty : weaving.inserted here = []) (known : old.IsBoundary entry) (less : here < entry)
    (carries : Cursor.Carries start entries (cursor.moveTo (weaving.enter entry)))
    (called : callBefore (cursor.moveTo (weaving.enter entry)) (weaving.enter here) length = .ok next) :
    Cursor.Carries start entries next := by
  obtain ⟨⟨call, isWide, middle⟩, opened, written⟩ := bind_eq_ok.1 called
  have carried := openCall_carries opened (woven.enter_lt boundary known less) carries
  have woven : Woven old weaving (cursor.moveTo (weaving.enter entry)).code.bytes := woven
  obtain ⟨weaving', rewoven, blank, rfl, _, marks⟩ := openCall_rewoven decoded woven boundary empty opened
  have moved : middle.pos = weaving'.enter entry :=
    congrArg (fun result => result.2.2.pos) (Except.ok.inj (opened.symm.trans (marks known)))
  have room := blank.place_eq rewoven.woven boundary
  have ordered := rewoven.woven.ordered boundary known less
  refine (Cursor.overwrite_overwritten written).carries ?_ carried
  rw [length_callBytes, moved]
  omega

inductive Visits (length : Nat) (code : Code) : Nat → Cursor → Prop
  | start : Visits length code 0 (Cursor.start code)
  | step {calls count : Nat} {cursor next : Cursor} (passed : Visits length code calls cursor)
      (stepped : callStep cursor length = .ok (some (next, count))) :
      Visits length code (calls + count) next

inductive Finishes (length : Nat) (code : Code) : Except Error (Nat × Code) → Prop
  | stop {calls : Nat} {cursor : Cursor} (passed : Visits length code calls cursor)
      (stopped : callStep cursor length = .ok none) : Finishes length code (.ok (calls, cursor.code))
  | fail {calls : Nat} {cursor : Cursor} {error : Error} (passed : Visits length code calls cursor)
      (failed : callStep cursor length = .error error) : Finishes length code (.error error)

section Finishes

variable {code : Code} {calls : Nat} {result : Except Error (Nat × Code)}
  (forward : ∀ {calls count : Nat} {cursor next : Cursor}, Visits length code calls cursor →
    callStep cursor length = .ok (some (next, count)) → roomAhead next < roomAhead cursor)

include forward

theorem Visits.callFrom_eq (passed : Visits length code calls cursor) :
    callFrom length calls cursor = callBeforeReturns code length := by
  induction passed with
  | start => rfl
  | step passed stepped ih =>
      rw [← ih]
      conv_rhs => rw [callFrom]
      rw [stepped]
      exact (if_pos (forward passed stepped)).symm

theorem Visits.finishes (passed : Visits length code calls cursor) :
    Finishes length code (callFrom length calls cursor) := by
  fun_induction callFrom length calls cursor with
  | case1 calls cursor error failed => exact .fail passed failed
  | case2 calls cursor stopped => exact .stop passed stopped
  | case3 calls cursor next count stepped _ ih => exact ih (passed.step stepped)
  | case4 calls cursor next count stepped stuck => exact absurd (forward passed stepped) stuck

theorem finishes_iff : Finishes length code result ↔ result = callBeforeReturns code length := by
  constructor
  · intro ends
    cases ends with
    | stop passed stopped =>
        rw [← passed.callFrom_eq forward, callFrom, stopped]
    | fail passed failed =>
        rw [← passed.callFrom_eq forward, callFrom, failed]
  · rintro rfl
    exact Visits.start.finishes forward

end Finishes

/-- The last bytes of a body are those from an instruction on, none of which is a switch or leads to a
place in front of it. -/
structure Tail (code : Code) (old : Listing) (entry length : Nat) : Prop where
  decoded : Listing.decode code.bytes = .ok old
  boundary : old.IsBoundary entry
  whole : entry + length = code.bytes.size
  straight : ∀ {pos : Nat} {located : Located}, (pos, located) ∈ old.entries → entry ≤ pos →
    located.instruction.isSwitch = false
  inside : ∀ {pos : Nat} {located : Located}, (pos, located) ∈ old.entries → entry ≤ pos →
    ∀ target ∈ located.instruction.targets, (entry : Int) ≤ target

/-- Where the scan has come to, the returns behind it call the subroutine, nothing else is new, and
everything leads where it led. -/
structure Served (code : Code) (old : Listing) (entry length : Nat) (weaving : Weaving) (calls : Nat)
    (cursor : Cursor) : Prop extends Right old entry length weaving cursor where
  woven : Woven old weaving cursor.code.bytes
  counted : calls = old.returns fun pos => decide (weaving.place pos < cursor.pos)
  others : ∀ {pos : Nat}, old.IsBoundary pos → weaving.inserted pos = [] ∨
    weaving.place pos < cursor.pos ∧
      ∃ located, (pos, located) ∈ old.entries ∧ located.instruction.IsReturn
  near : ∀ {pos : Nat} {goal : Int}, old.IsBoundary pos →
    weaving.inserted pos = [(weaving.enter pos, ⟨3, .branch Opcode.jsr goal⟩)] →
    Code.Layout.isShort (goal - weaving.enter pos) = true
  bytes : ∀ i < length, cursor.code.bytes[weaving.enter entry + i]? = code.bytes[entry + i]?

section Tail

variable {code : Code} {calls count : Nat}

theorem Tail.exists_closed (tail : Tail code old entry length) :
    ∃ back, Code.Closed code.bytes entry back := by
  have decoded := tail.decoded
  obtain ⟨_, back, _, _, run⟩ := (Code.isBoundary_iff_runs decoded).1 tail.boundary
  have known {pos : Nat} {located : Located} (member : (pos, located) ∈ back) :=
    (Code.mem_iff_of_runs decoded tail.boundary run).1 member
  rw [(Code.decode_eq_ok.1 decoded).2] at run
  exact ⟨back, run, fun _ member => tail.straight (known member).1 (known member).2,
    fun _ member => tail.inside (known member).1 (known member).2⟩

theorem returns_place (woven : Woven old weaving cursor.code.bytes) (boundary : old.IsBoundary here) :
    old.returns (fun pos => decide (weaving.place pos < weaving.enter here)) =
      old.returns fun pos => decide (pos < here) := by
  refine Listing.returns_congr fun member _ => ?_
  rw [decide_eq_true_eq, decide_eq_true_eq]
  exact woven.place_lt_enter_iff (.inr ⟨_, member⟩) boundary

structure Serving (code : Code) (old : Listing) (entry length : Nat) (back : List (Nat × Located))
    (weaving : Weaving) (calls : Nat) (cursor : Cursor) : Prop where
  scanning : Scanning old code.handlers weaving cursor
  right : Right old entry length weaving cursor
  carries : Cursor.Carries entry back (cursor.moveTo (weaving.enter entry))
  counted : calls = old.returns fun pos => decide (weaving.place pos < cursor.pos)

theorem Tail.exists_serving (tail : Tail code old entry length)
    (closed : Code.Closed code.bytes entry entries) (bounded : code.bytes.size ≤ Code.maxLength) :
    ∃ weaving, Serving code old entry length entries weaving 0 (Cursor.start code) := by
  obtain ⟨weaving, scanning, enter⟩ := exists_scanning_start bounded tail.decoded
  refine ⟨weaving, scanning, ⟨?_, Nat.zero_le _, fun _ _ before => absurd before (Nat.not_lt_zero _)⟩,
    ⟨0, ?_, ?_⟩, ?_⟩
  · rw [enter]
    exact tail.whole
  · rw [enter, Nat.zero_add]
    rfl
  · have same : entries.map (Code.shiftedBy 0) = entries := by
      refine List.map_id'' (fun entry => ?_) entries
      simp [Code.shiftedBy, Code.Instruction.shift_zero]
    rw [enter, same]
    exact closed
  · refine (Array.countP_eq_zero.2 fun entry _ => ?_).symm
    simp [Cursor.start]

theorem Tail.kept (tail : Tail code old entry length)
    (closed : Code.Closed code.bytes entry entries) (woven : Woven old weaving cursor.code.bytes)
    (carries : Cursor.Carries entry entries (cursor.moveTo (weaving.enter entry))) :
    weaving.enter entry + length = cursor.code.bytes.size ∧
      ∀ i < length, cursor.code.bytes[weaving.enter entry + i]? = code.bytes[entry + i]? := by
  have inside := Nat.le_trans (woven.enter_le_place tail.boundary)
    (woven.place_le_size tail.decoded tail.boundary)
  have bounded : entry ≤ code.bytes.size := Nat.le_of_add_right_le (Nat.le_of_eq tail.whole)
  exact carries.bytes closed bounded inside tail.whole

theorem Serving.step (tail : Tail code old entry length)
    (closed : Code.Closed code.bytes entry entries)
    (serving : Serving code old entry length entries weaving calls cursor)
    (stepped : callStep cursor length = .ok (some (next, count))) :
    ∃ weaving', Serving code old entry length entries weaving' (calls + count) next := by
  obtain ⟨size, opcode, more, measured, advanced, inside, read, done⟩ := callStep_eq_some stepped
  have decoded := tail.decoded
  have scanning := serving.scanning
  rcases done with ⟨returns, rfl, called⟩ | ⟨other, rfl, rfl⟩
  · obtain ⟨weaving', here, located, goal, callsAt⟩ :=
      scanning.exists_callsAt decoded more measured advanced read returns called
    have boundary := callsAt.boundary
    have before := callsAt.before scanning tail.boundary serving.right inside
    have woven := callsAt.rewoven.woven
    obtain ⟨⟨_, passed⟩, _, rfl, marks⟩ := callsAt.marks
    have marked := marks tail.boundary
    rw [callsAt.found] at marked
    have carries : Cursor.Carries entry entries (next.moveTo (weaving'.enter entry)) :=
      callBefore_carries decoded scanning.woven boundary callsAt.empty tail.boundary before
        serving.carries marked
    have kept := (tail.kept closed woven carries).1
    refine ⟨weaving', callsAt.scanning decoded scanning, ?_, carries, ?_⟩
    · exact serving.right.call decoded scanning callsAt.rewoven callsAt.calls
        ((callsAt.leads tail.boundary before).2 kept) kept callsAt.member callsAt.short tail.boundary
        before callsAt.found callsAt.moved
    · rw [serving.counted, callsAt.found, callsAt.moved, returns_place scanning.woven boundary,
        returns_place woven (callsAt.boundary_behind decoded),
        Listing.returns_succ decoded callsAt.member callsAt.returns]
  · refine ⟨weaving, scanning.skip more measured, serving.right.skip decoded scanning tail.boundary more
      measured inside read other, serving.carries, serving.counted.trans ?_⟩
    refine Listing.returns_congr fun member returns => ?_
    rw [decide_eq_true_eq, decide_eq_true_eq]
    exact ⟨fun before => Nat.lt_of_lt_of_le before (Nat.le_add_right _ _),
      scanning.place_lt_of_skip decoded more measured read other member returns⟩

theorem Visits.exists_serving (tail : Tail code old entry length)
    (closed : Code.Closed code.bytes entry entries) (bounded : code.bytes.size ≤ Code.maxLength)
    (passed : Visits length code calls cursor) :
    ∃ weaving, Serving code old entry length entries weaving calls cursor := by
  induction passed with
  | start => exact tail.exists_serving closed bounded
  | step _ stepped ih =>
      obtain ⟨_, serving⟩ := ih
      exact serving.step tail closed stepped

theorem Serving.served (tail : Tail code old entry length)
    (closed : Code.Closed code.bytes entry entries)
    (serving : Serving code old entry length entries weaving calls cursor) :
    Served code old entry length weaving calls cursor := by
  have scanning := serving.scanning
  have woven := scanning.woven
  refine ⟨serving.right, woven, serving.counted, fun {pos} boundary => ?_, fun boundary inserted => ?_,
    (tail.kept closed woven serving.carries).2⟩
  · rcases scanning.calls boundary with empty | ⟨_, returns⟩
    · exact .inl empty
    · rcases Nat.lt_or_ge (weaving.place pos) cursor.pos with before | behind
      · exact .inr ⟨before, returns⟩
      · exact .inl (scanning.behind boundary behind)
  · have run := woven.inserted boundary
    rw [inserted] at run
    exact (run.mem_bounds (List.mem_singleton_self _)).1.isShort

structure Idle (code : Code) (old : Listing) (entry calls : Nat) (cursor : Cursor) : Prop where
  calls : calls = 0
  same : cursor.code = code
  boundary : old.IsBoundary cursor.pos
  before : cursor.pos ≤ entry
  returns : ∀ {pos : Nat} {located : Located}, (pos, located) ∈ old.entries →
    located.instruction.IsReturn → cursor.pos ≤ pos

theorem Idle.step (tail : Tail code old entry length) (long : Code.maxLength < code.bytes.size)
    (idle : Idle code old entry calls cursor)
    (stepped : callStep cursor length = .ok (some (next, count))) :
    Idle code old entry (calls + count) next ∧ cursor.pos < next.pos ∧
      cursor.pos < cursor.code.bytes.size := by
  obtain ⟨size, opcode, more, measured, _, inside, read, done⟩ := callStep_eq_some stepped
  have decoded := tail.decoded
  obtain ⟨rfl, rfl, boundary, _, returns⟩ := idle
  rcases done with ⟨_, _, called⟩ | ⟨other, rfl, rfl⟩
  · obtain ⟨_, _, _, opened⟩ := callBefore_opens called
    exact absurd (size_le_of_opened opened) (Nat.not_le_of_lt long)
  · rcases boundary with ended | ⟨located, member⟩
    · rw [(Code.decode_eq_ok.1 decoded).2] at ended
      omega
    have reads := Code.reads_of_mem decoded member
    obtain rfl : located.length = size := Except.ok.inj (reads.1.symm.trans measured)
    refine ⟨⟨rfl, rfl, Code.isBoundary_behind decoded member, ?_, fun {_ _} known isReturn => ?_⟩,
      Nat.lt_add_of_pos_right reads.length_pos, more⟩
    · have whole := tail.whole
      refine Code.behind_le_of_lt decoded member tail.boundary ?_
      unfold subroutineAt at inside
      omega
    · refine Code.behind_le_of_lt decoded member (.inr ⟨_, known⟩) ?_
      rcases Nat.lt_or_eq_of_le (returns known isReturn) with less | here
      · exact less
      · rw [← here] at known
        cases Code.located_unique decoded member known
        rw [(reads.isReturn_iff read).1 isReturn] at other
        cases other

theorem Visits.idle (tail : Tail code old entry length) (long : Code.maxLength < code.bytes.size)
    (passed : Visits length code calls cursor) : Idle code old entry calls cursor := by
  induction passed with
  | start =>
      exact ⟨rfl, rfl, Code.isBoundary_zero tail.decoded, Nat.zero_le _, fun _ _ => Nat.zero_le _⟩
  | step _ stepped ih => exact (ih.step tail long stepped).1

theorem Idle.exists_served (tail : Tail code old entry length)
    (idle : Idle code old entry calls cursor) :
    ∃ weaving, Served code old entry length weaving calls cursor := by
  obtain ⟨rfl, rfl, _, before, returns⟩ := idle
  obtain ⟨weaving, woven, enter, place, empty⟩ := Code.exists_woven tail.decoded
  refine ⟨weaving, ⟨?_, ?_, fun known isReturn earlier => ?_⟩, woven, ?_, fun _ => .inl (empty _),
    fun _ inserted => ?_, fun i _ => ?_⟩
  · rw [enter]
    exact tail.whole
  · rw [enter]
    exact before
  · rw [place] at earlier
    exact absurd (returns known isReturn) (Nat.not_le_of_lt earlier)
  · refine (Array.countP_eq_zero.2 fun entry member both => ?_).symm
    obtain ⟨isReturn, earlier⟩ := Bool.and_eq_true_iff.1 both
    rw [place, decide_eq_true_eq] at earlier
    exact Nat.not_le_of_lt earlier (returns member (Code.Instruction.isReturn_iff.1 isReturn))
  · rw [empty] at inserted
    cases inserted
  · rw [enter]
    rfl

theorem Visits.lt_roomAhead (tail : Tail code old entry length)
    (passed : Visits length code calls cursor)
    (stepped : callStep cursor length = .ok (some (next, count))) :
    roomAhead next < roomAhead cursor := by
  -- Invariants of the scan hold of code that gaps can be opened in, so longer code is looked at apart.
  rcases Nat.lt_or_ge Code.maxLength code.bytes.size with long | bounded
  · have idle := passed.idle tail long
    obtain ⟨idle', forward, more⟩ := idle.step tail long stepped
    unfold roomAhead
    rw [idle'.same, idle.same] at *
    omega
  · obtain ⟨_, closed⟩ := tail.exists_closed
    obtain ⟨_, serving⟩ := passed.exists_serving tail closed bounded
    exact callStep_lt_roomAhead tail.decoded serving.scanning stepped

theorem Visits.exists_served (tail : Tail code old entry length)
    (passed : Visits length code calls cursor) :
    ∃ weaving, Served code old entry length weaving calls cursor := by
  rcases Nat.lt_or_ge Code.maxLength code.bytes.size with long | bounded
  · exact (passed.idle tail long).exists_served tail
  · obtain ⟨_, closed⟩ := tail.exists_closed
    obtain ⟨weaving, serving⟩ := passed.exists_serving tail closed bounded
    exact ⟨weaving, serving.served tail closed⟩

end Tail

/-- What the scan of a body does for the subroutine at its end. -/
structure Serves (code : Code) (old : Listing) (entry length : Nat) : Prop where
  ends : ∀ {result : Except Error (Nat × Code)}, Finishes length code result ↔
    result = callBeforeReturns code length
  passed : ∀ {calls : Nat} {cursor : Cursor}, Visits length code calls cursor →
    ∃ weaving, Served code old entry length weaving calls cursor
  done : ∀ {total : Nat} {code' : Code}, callBeforeReturns code length = .ok (total, code') →
    total = old.returns (fun pos => decide (pos < entry)) ∧
      ∃ weaving, Served code old entry length weaving total ⟨code', weaving.enter entry⟩ ∧
        ∀ {pos : Nat} {located : Located}, (pos, located) ∈ old.entries → pos < entry →
          located.instruction.IsReturn → weaving.Calls pos (weaving.enter entry)

/-- Whatever the distances, a scan ends, and every return in front of a subroutine out of which nothing
leads calls it then. -/
theorem callBeforeReturns_served {code : Code} (tail : Tail code old entry length) :
    Serves code old entry length := by
  have forward {calls count : Nat} {cursor next : Cursor} (passed : Visits length code calls cursor)
      (stepped : callStep cursor length = .ok (some (next, count))) :=
    passed.lt_roomAhead tail stepped
  refine ⟨finishes_iff forward, fun passed => passed.exists_served tail, fun {total code'} done => ?_⟩
  have ends := (finishes_iff forward).2 done.symm
  generalize same : Except.ok (total, code') = result at ends
  cases ends with
  | fail => cases same
  | @stop calls last passed stopped =>
      cases same
      obtain ⟨weaving, served⟩ := passed.exists_served tail
      have reached := served.pos_eq_of_stopped stopped
      obtain ⟨_, pos⟩ := last
      cases reached
      have counted := served.counted
      rw [returns_place served.woven tail.boundary] at counted
      refine ⟨counted, weaving, served, fun member before returns => ?_⟩
      exact served.called member returns (served.woven.ordered (.inr ⟨_, member⟩) tail.boundary before)

def twoReturns : Code :=
  ⟨1, 2, #[0x1a, 0x99, 0x00, 0x04, 0xb1, 0xb1, 0x4c, 0xa7, 0x00, 0x03, 0xa9, 0x01], [], []⟩

def twoReturnsListing : Listing :=
  ⟨#[(0, ⟨1, .plain [0x1a]⟩), (1, ⟨3, .branch 0x99 5⟩), (4, ⟨1, .plain [0xb1]⟩),
    (5, ⟨1, .plain [0xb1]⟩), (6, ⟨1, .plain [0x4c]⟩), (7, ⟨3, .branch 0xa7 10⟩),
    (10, ⟨2, .plain [0xa9, 0x01]⟩)], 12⟩

def twoCalls : Code :=
  ⟨1, 2, #[0x1a, 0x99, 0x00, 0x07, 0xa8, 0x00, 0x08, 0xb1, 0xa8, 0x00, 0x04, 0xb1, 0x4c, 0xa7, 0x00, 0x03,
    0xa9, 0x01], [], []⟩

set_option maxRecDepth 4000 in
theorem callBeforeReturns_served_twoReturns :
    Tail twoReturns twoReturnsListing 6 6 ∧ callBeforeReturns twoReturns 6 = .ok (2, twoCalls) ∧
      Serves twoReturns twoReturnsListing 6 6 := by
  have straight : ∀ entry ∈ twoReturnsListing.entries.toList, 6 ≤ entry.1 →
      entry.2.instruction.isSwitch = false := by
    decide
  have inside : ∀ entry ∈ twoReturnsListing.entries.toList, 6 ≤ entry.1 →
      ∀ target ∈ entry.2.instruction.targets, (6 : Int) ≤ target := by
    decide
  have entry : (6, (⟨1, .plain [0x4c]⟩ : Located)) ∈ twoReturnsListing.entries.toList := by
    decide
  have tail : Tail twoReturns twoReturnsListing 6 6 := by
    refine ⟨by cbv, .inr ⟨_, Array.mem_toList_iff.1 entry⟩, rfl, ?_, ?_⟩
    · exact fun member => straight _ (Array.mem_toList_iff.2 member)
    · exact fun member => inside _ (Array.mem_toList_iff.2 member)
  exact ⟨tail, by cbv, callBeforeReturns_served tail⟩

end Edit

end ClassSplice
