import ClassSplice.Proofs.Edit.Calls

/-!
The scan of a body for returns. `Scanning` is what holds of the code at each step, and `Right` what
holds as long as every call leads to the subroutine; a call that does not goes on leading elsewhere
(`Wrong`).

Main statement: `callFrom_scanned` (a scan that succeeds, from its first step to its last).
-/

namespace ClassSplice.Edit

open Code (Cursor Handler HandlerTable Instruction Listing Located Opcode Reads Rewoven Runs Weaving
  Woven)

section Steps

variable {cursor next : Cursor} {length count : Nat}

theorem callStep_eq_some (stepped : callStep cursor length = .ok (some (next, count))) :
    ∃ (size : Nat) (opcode : Opcode), cursor.pos < cursor.code.bytes.size ∧
      Code.instructionLength cursor.code.bytes cursor.pos = .ok size ∧
      cursor.next = .ok (some (cursor.pos, cursor.moveTo (cursor.pos + size))) ∧
      cursor.pos < subroutineAt cursor length ∧
      Code.byteAt cursor.code.bytes cursor.pos = .ok opcode ∧
      ((opcode.isReturn = true ∧ count = 1 ∧
          callBefore (cursor.moveTo (cursor.pos + size)) cursor.pos length = .ok next) ∨
        (opcode.isReturn = false ∧ count = 0 ∧ next = cursor.moveTo (cursor.pos + size))) := by
  unfold callStep at stepped
  obtain ⟨found, advanced, stepped⟩ := bind_eq_ok.1 stepped
  cases found with
  | none => cases stepped
  | some found =>
      obtain ⟨pos, passed⟩ := found
      obtain ⟨rfl, size, measured, rfl⟩ := Cursor.next_eq_some advanced
      have room := Code.length_pos measured
      have behind := Code.length_le measured
      have same : subroutineAt (cursor.moveTo (cursor.pos + size)) length =
          subroutineAt cursor length := rfl
      dsimp only at stepped
      rw [same] at stepped
      split at stepped
      · cases stepped
      · rename_i inside
        obtain ⟨opcode, read, stepped⟩ := bind_eq_ok.1 stepped
        refine ⟨size, opcode, by omega, measured, advanced, Nat.lt_of_not_le inside, read, ?_⟩
        split at stepped
        · rename_i returns
          obtain ⟨_, called, stepped⟩ := bind_eq_ok.1 stepped
          cases pure_eq_ok.1 stepped
          exact .inl ⟨returns, rfl, called⟩
        · rename_i returns
          cases pure_eq_ok.1 stepped
          exact .inr ⟨Bool.eq_false_iff.2 returns, rfl, rfl⟩

theorem callStep_eq_none (stopped : callStep cursor length = .ok none) :
    cursor.code.bytes.size ≤ cursor.pos ∨ subroutineAt cursor length ≤ cursor.pos := by
  unfold callStep at stopped
  obtain ⟨found, advanced, stopped⟩ := bind_eq_ok.1 stopped
  cases found with
  | none => exact .inl (Cursor.next_eq_none advanced)
  | some found =>
      obtain ⟨pos, passed⟩ := found
      obtain ⟨rfl, size, _, rfl⟩ := Cursor.next_eq_some advanced
      dsimp only at stopped
      split at stopped
      · rename_i reached
        exact .inr reached
      · obtain ⟨_, _, stopped⟩ := bind_eq_ok.1 stopped
        split at stopped
        · obtain ⟨_, _, stopped⟩ := bind_eq_ok.1 stopped
          cases stopped
        · cases stopped

end Steps

/-- The steps of a scan. A second cursor stands at the subroutine and moves along with the code;
`marks` are where it stands behind each call. -/
inductive Scan (length : Nat) : Cursor → Nat → List Cursor → Cursor → Prop
  | stop {cursor : Cursor} {entry : Nat} (stopped : callStep cursor length = .ok none) :
      Scan length cursor entry [] cursor
  | skip {cursor next last : Cursor} {entry : Nat} {marks : List Cursor}
      (stepped : callStep cursor length = .ok (some (next, 0)))
      (rest : Scan length next entry marks last) : Scan length cursor entry marks last
  | call {cursor passed next mark last : Cursor} {pos entry : Nat} {marks : List Cursor}
      (found : cursor.next = .ok (some (pos, passed)))
      (stepped : callStep cursor length = .ok (some (next, 1)))
      (marked : callBefore (passed.moveTo entry) pos length = .ok mark)
      (rest : Scan length next mark.pos marks last) : Scan length cursor entry (mark :: marks) last

theorem Scan.unique {length entry : Nat} {cursor last last' : Cursor} {marks marks' : List Cursor}
    (scan : Scan length cursor entry marks last) (scan' : Scan length cursor entry marks' last') :
    marks = marks' ∧ last = last' := by
  induction scan generalizing marks' with
  | stop stopped =>
      cases scan' with
      | stop => exact ⟨rfl, rfl⟩
      | skip stepped | call _ stepped => cases stopped.symm.trans stepped
  | skip stepped _ ih =>
      cases scan' with
      | stop stopped => cases stepped.symm.trans stopped
      | skip stepped' rest =>
          cases stepped.symm.trans stepped'
          exact ih rest
      | call _ stepped' => cases stepped.symm.trans stepped'
  | call found stepped marked _ ih =>
      cases scan' with
      | stop stopped => cases stepped.symm.trans stopped
      | skip stepped' => cases stepped.symm.trans stepped'
      | call found' stepped' marked' rest =>
          cases found.symm.trans found'
          cases stepped.symm.trans stepped'
          cases marked.symm.trans marked'
          obtain ⟨rfl, rfl⟩ := ih rest
          exact ⟨rfl, rfl⟩

/-- The subroutine at the mark takes as many bytes as when the scan began. -/
def KeepsLength (length : Nat) (mark : Cursor) : Prop :=
  mark.pos + length = mark.code.bytes.size

/-- What holds of the code at every step of a scan. -/
structure Scanning (old : Listing) (table : HandlerTable) (weaving : Weaving) (cursor : Cursor) :
    Prop where
  woven : Woven old weaving cursor.code.bytes
  bounded : cursor.code.bytes.size ≤ Code.maxLength
  handlers : List.Forall₂ (Handler.Carried weaving) table cursor.code.handlers
  boundary : ∃ now, Listing.decode cursor.code.bytes = .ok now ∧ now.IsBoundary cursor.pos
  /-- Calls stand in front of returns, and nothing else stands anywhere. -/
  calls : ∀ {pos : Nat}, old.IsBoundary pos → weaving.inserted pos = [] ∨
    (∃ goal, weaving.Calls pos goal) ∧
      ∃ located, (pos, located) ∈ old.entries ∧ located.instruction.IsReturn
  behind : ∀ {pos : Nat}, old.IsBoundary pos → cursor.pos ≤ weaving.place pos →
    weaving.inserted pos = []

structure Right (old : Listing) (entry length : Nat) (weaving : Weaving) (cursor : Cursor) : Prop where
  tail : weaving.enter entry + length = cursor.code.bytes.size
  before : cursor.pos ≤ weaving.enter entry
  called : ∀ {pos : Nat} {located : Located}, (pos, located) ∈ old.entries →
    located.instruction.IsReturn → weaving.place pos < cursor.pos →
    weaving.Calls pos (weaving.enter entry)

def Wrong (old : Listing) (entry : Nat) (weaving : Weaving) : Prop :=
  ∃ pos goal, old.IsBoundary pos ∧ weaving.Calls pos goal ∧ goal ≠ weaving.enter entry

section Steps

variable {base : Array UInt8} {old : Listing} {table : HandlerTable} {weaving : Weaving}
  {cursor next : Cursor} {entry length size : Nat} {opcode : Opcode}

theorem Scanning.reads (scanning : Scanning old table weaving cursor)
    (more : cursor.pos < cursor.code.bytes.size)
    (measured : Code.instructionLength cursor.code.bytes cursor.pos = .ok size) :
    ∃ now located, Listing.decode cursor.code.bytes = .ok now ∧
      (cursor.pos, located) ∈ now.entries ∧ Reads cursor.code.bytes cursor.pos located ∧
      located.length = size := by
  obtain ⟨now, decoded, boundary⟩ := scanning.boundary
  obtain ⟨_, ended⟩ := Code.decode_eq_ok.1 decoded
  rcases boundary with atEnd | ⟨located, member⟩
  · omega
  · have reads := Code.reads_of_mem decoded member
    exact ⟨now, located, decoded, member, reads, Except.ok.inj (reads.1.symm.trans measured)⟩

theorem Scanning.skip (scanning : Scanning old table weaving cursor)
    (more : cursor.pos < cursor.code.bytes.size)
    (measured : Code.instructionLength cursor.code.bytes cursor.pos = .ok size) :
    Scanning old table weaving (cursor.moveTo (cursor.pos + size)) := by
  obtain ⟨now, located, decoded, member, _, rfl⟩ := scanning.reads more measured
  refine ⟨scanning.woven, scanning.bounded, scanning.handlers,
    ⟨now, decoded, Code.isBoundary_behind decoded member⟩, scanning.calls, ?_⟩
  intro pos boundary beyond
  exact scanning.behind boundary (Nat.le_trans (Nat.le_add_right _ _) beyond)

theorem Scanning.place_lt_of_skip (decoded : Listing.decode base = .ok old)
    (scanning : Scanning old table weaving cursor) (more : cursor.pos < cursor.code.bytes.size)
    (measured : Code.instructionLength cursor.code.bytes cursor.pos = .ok size)
    (read : Code.byteAt cursor.code.bytes cursor.pos = .ok opcode)
    (other : opcode.isReturn = false) {pos : Nat} {original : Located}
    (known : (pos, original) ∈ old.entries) (returns : original.instruction.IsReturn)
    (before : weaving.place pos < cursor.pos + size) : weaving.place pos < cursor.pos := by
  obtain ⟨now, located, decoded', member, reads, rfl⟩ := scanning.reads more measured
  have woven := scanning.woven
  have place := woven.boundary_place decoded decoded' (.inr ⟨original, known⟩)
  by_contra above
  rcases Nat.lt_or_eq_of_le (Nat.le_of_not_lt above) with less | same
  · have := Code.behind_le_of_lt decoded' member place less
    exact absurd before (Nat.not_lt_of_le this)
  · obtain ⟨first, plain, isReturn⟩ := returns
    have reads' := (woven.reads_plain known plain).1
    rw [← same] at reads'
    cases reads.unique reads'
    have isReturn := (reads.isReturn_iff read).1 ⟨first, rfl, isReturn⟩
    rw [other] at isReturn
    cases isReturn

theorem Right.skip (decoded : Listing.decode base = .ok old)
    (scanning : Scanning old table weaving cursor) (right : Right old entry length weaving cursor)
    (boundary : old.IsBoundary entry) (more : cursor.pos < cursor.code.bytes.size)
    (measured : Code.instructionLength cursor.code.bytes cursor.pos = .ok size)
    (inside : cursor.pos < subroutineAt cursor length)
    (read : Code.byteAt cursor.code.bytes cursor.pos = .ok opcode)
    (other : opcode.isReturn = false) :
    Right old entry length weaving (cursor.moveTo (cursor.pos + size)) := by
  refine ⟨right.tail, ?_, fun known returns before => right.called known returns
    (scanning.place_lt_of_skip decoded more measured read other known returns before)⟩
  obtain ⟨now, located, decoded', member, _, rfl⟩ := scanning.reads more measured
  have tail := right.tail
  apply Code.behind_le_of_lt decoded' member (scanning.woven.boundary_enter decoded decoded' boundary)
  unfold subroutineAt at inside
  omega

theorem Scanning.found (decoded : Listing.decode base = .ok old)
    (scanning : Scanning old table weaving cursor) (more : cursor.pos < cursor.code.bytes.size)
    (measured : Code.instructionLength cursor.code.bytes cursor.pos = .ok size)
    (read : Code.byteAt cursor.code.bytes cursor.pos = .ok opcode)
    (returns : opcode.isReturn = true) :
    ∃ here original, (here, original) ∈ old.entries ∧ original.instruction.IsReturn ∧
      original.length = 1 ∧ weaving.inserted here = [] ∧ cursor.pos = weaving.enter here ∧
      cursor.pos + size = weaving.enter (here + 1) := by
  obtain ⟨now, located, decoded', member, reads, rfl⟩ := scanning.reads more measured
  have woven := scanning.woven
  obtain ⟨first, plain, isReturn⟩ := (reads.isReturn_iff read).2 returns
  obtain ⟨_, instruction⟩ := located
  dsimp only at plain
  subst plain
  rcases woven.mem_cases decoded decoded' member with ⟨goal, boundary, inside⟩ | ⟨here, original, known, inside⟩
  · rcases scanning.calls boundary with empty | ⟨⟨_, calls⟩, _⟩
    · rw [empty] at inside
      cases inside
    · exact absurd inside calls.not_plain
  · obtain ⟨same, plain, _⟩ := (woven.image known).eq_of_plain inside
    have boundary : old.IsBoundary here := .inr ⟨original, known⟩
    have short : original.length = 1 := by
      rw [(Code.reads_of_mem decoded known).length_eq, plain]
      rfl
    have empty := scanning.behind boundary (Nat.le_of_eq same)
    refine ⟨here, original, known, ⟨first, plain, isReturn⟩, short, empty, ?_, ?_⟩
    · rw [same, woven.enter_eq_place boundary empty]
    · have behind := (woven.reads_plain known plain).2
      rw [short] at behind
      rw [behind, same, reads.length_eq]
      rfl

end Steps

section Call

variable {base : Array UInt8} {old : Listing} {table : HandlerTable} {weaving weaving' : Weaving}
  {cursor next : Cursor} {entry length here : Nat} {located : Located} {goal : Int}

theorem Scanning.call (decoded : Listing.decode base = .ok old)
    (scanning : Scanning old table weaving cursor)
    (rewoven : Rewoven old here weaving weaving' cursor.code next.code)
    (calls : weaving'.Calls here goal) (member : (here, located) ∈ old.entries)
    (returns : located.instruction.IsReturn) (short : located.length = 1)
    (found : cursor.pos = weaving.enter here) (moved : next.pos = weaving'.enter (here + 1)) :
    Scanning old table weaving' next := by
  have woven := rewoven.woven
  have boundary : old.IsBoundary here := .inr ⟨located, member⟩
  have behind : old.IsBoundary (here + 1) := by
    rw [← short]
    exact Code.isBoundary_behind decoded member
  refine ⟨woven, rewoven.bounded scanning.bounded, rewoven.handlers scanning.handlers, ?_, ?_, ?_⟩
  · have decoded' := Code.decode_of_runs (woven.runs_whole decoded)
    refine ⟨_, decoded', ?_⟩
    rw [moved]
    exact woven.boundary_enter decoded decoded' behind
  · intro pos known
    by_cases same : pos = here
    · subst same
      exact .inr ⟨⟨goal, calls⟩, located, member, returns⟩
    · rcases scanning.calls known with empty | ⟨⟨_, calls⟩, original⟩
      · exact .inl (rewoven.blank known same empty)
      · obtain ⟨goal', calls, _⟩ := rewoven.calls known same calls
        exact .inr ⟨⟨goal', calls⟩, original⟩
  · intro pos known beyond
    rw [moved] at beyond
    have later : here < pos := by
      by_contra above
      have := woven.ordered known behind (by omega)
      omega
    have before := scanning.woven.ordered boundary known later
    have entered := scanning.woven.enter_le_place boundary
    have below := scanning.woven.enter_le_place known
    exact rewoven.blank known (Nat.ne_of_gt later) (scanning.behind known (by omega))

theorem Right.call (decoded : Listing.decode base = .ok old)
    (scanning : Scanning old table weaving cursor) (right : Right old entry length weaving cursor)
    (rewoven : Rewoven old here weaving weaving' cursor.code next.code)
    (calls : weaving'.Calls here goal) (leads : goal = weaving'.enter entry)
    (kept : weaving'.enter entry + length = next.code.bytes.size)
    (member : (here, located) ∈ old.entries) (short : located.length = 1)
    (boundary : old.IsBoundary entry) (inside : here < entry)
    (found : cursor.pos = weaving.enter here) (moved : next.pos = weaving'.enter (here + 1)) :
    Right old entry length weaving' next := by
  have woven := rewoven.woven
  have first : old.IsBoundary here := .inr ⟨located, member⟩
  have behind : old.IsBoundary (here + 1) := by
    rw [← short]
    exact Code.isBoundary_behind decoded member
  refine ⟨kept, ?_, ?_⟩
  · rw [moved]
    rcases Nat.lt_or_eq_of_le (Nat.succ_le_of_lt inside) with less | same
    · exact Nat.le_of_lt (woven.enter_lt behind boundary less)
    · exact Nat.le_of_eq (congrArg weaving'.enter same)
  · intro pos original known returns before
    rw [moved] at before
    have known' : old.IsBoundary pos := .inr ⟨original, known⟩
    by_cases same : pos = here
    · subst same
      rw [← leads]
      exact calls
    · have earlier : pos < here := by
        have := (woven.place_lt_enter_iff known' behind).1 before
        omega
      have before := scanning.woven.ordered known' first earlier
      rw [← found] at before
      obtain ⟨goal', calls, leads⟩ := rewoven.calls known' same (right.called known returns before)
      rw [(leads boundary).2 rfl] at calls
      exact calls

theorem Wrong.call (wrong : Wrong old entry weaving)
    (rewoven : Rewoven old here weaving weaving' cursor.code next.code)
    (boundary : old.IsBoundary entry) (empty : weaving.inserted here = []) :
    Wrong old entry weaving' := by
  obtain ⟨pos, goal, known, calls, elsewhere⟩ := wrong
  have different : pos ≠ here := by
    rintro rfl
    exact calls.ne_nil empty
  obtain ⟨goal', calls, leads⟩ := rewoven.calls known different calls
  exact ⟨pos, goal', known, calls, fun same => elsewhere ((leads boundary).1 same)⟩

end Call

section Run

variable {base : Array UInt8} {old : Listing} {table : HandlerTable} {weaving : Weaving}
  {cursor next : Cursor} {entry length count : Nat}

structure CallsAt (old : Listing) (length : Nat) (weaving weaving' : Weaving) (cursor next : Cursor)
    (here : Nat) (located : Located) (goal : Int) : Prop where
  member : (here, located) ∈ old.entries
  returns : located.instruction.IsReturn
  short : located.length = 1
  empty : weaving.inserted here = []
  found : cursor.pos = weaving.enter here
  moved : next.pos = weaving'.enter (here + 1)
  rewoven : Rewoven old here weaving weaving' cursor.code next.code
  calls : weaving'.Calls here goal
  leads : ∀ {entry : Nat}, old.IsBoundary entry → here < entry →
    (goal = weaving'.enter entry ↔ weaving'.enter entry + length = next.code.bytes.size)
  marks : ∃ passed, cursor.next = .ok (some (cursor.pos, passed)) ∧ passed.code = cursor.code ∧
    ∀ {pos : Nat}, old.IsBoundary pos →
      callBefore (passed.moveTo (weaving.enter pos)) cursor.pos length =
        .ok (next.moveTo (weaving'.enter pos))

theorem Scanning.exists_callsAt {size : Nat} {opcode : Opcode} (decoded : Listing.decode base = .ok old)
    (scanning : Scanning old table weaving cursor) (more : cursor.pos < cursor.code.bytes.size)
    (measured : Code.instructionLength cursor.code.bytes cursor.pos = .ok size)
    (advanced : cursor.next = .ok (some (cursor.pos, cursor.moveTo (cursor.pos + size))))
    (read : Code.byteAt cursor.code.bytes cursor.pos = .ok opcode) (returns : opcode.isReturn = true)
    (called : callBefore (cursor.moveTo (cursor.pos + size)) cursor.pos length = .ok next) :
    ∃ weaving' here located goal, CallsAt old length weaving weaving' cursor next here located goal := by
  obtain ⟨here, located, member, isReturn, short, empty, found, passed⟩ :=
    scanning.found decoded more measured read returns
  have first : old.IsBoundary here := .inr ⟨located, member⟩
  have behind : old.IsBoundary (here + 1) := by
    rw [← short]
    exact Code.isBoundary_behind decoded member
  have target := called
  rw [found] at target
  have woven : Woven old weaving (cursor.moveTo (weaving.enter here + size)).code.bytes :=
    scanning.woven
  obtain ⟨weaving', goal, rewoven, calls, leads, marks⟩ :=
    callBefore_rewoven decoded woven first empty scanning.bounded target
  rw [← found] at marks
  have moved : next.pos = weaving'.enter (here + 1) := by
    have same := marks behind
    rw [← passed] at same
    exact congrArg Cursor.pos (Except.ok.inj (called.symm.trans same))
  exact ⟨weaving', here, located, goal, member, isReturn, short, empty, found, moved, rewoven, calls,
    leads, _, advanced, rfl, marks⟩

section CallsAt

variable {weaving' : Weaving} {here : Nat} {located : Located} {goal : Int}
  (callsAt : CallsAt old length weaving weaving' cursor next here located goal)

include callsAt

theorem CallsAt.boundary : old.IsBoundary here :=
  .inr ⟨located, callsAt.member⟩

theorem CallsAt.boundary_behind (decoded : Listing.decode base = .ok old) :
    old.IsBoundary (here + 1) := by
  rw [← callsAt.short]
  exact Code.isBoundary_behind decoded callsAt.member

theorem CallsAt.scanning (decoded : Listing.decode base = .ok old)
    (scanning : Scanning old table weaving cursor) : Scanning old table weaving' next :=
  scanning.call decoded callsAt.rewoven callsAt.calls callsAt.member callsAt.returns callsAt.short
    callsAt.found callsAt.moved

theorem CallsAt.forward (decoded : Listing.decode base = .ok old)
    (scanning : Scanning old table weaving cursor) : cursor.pos < next.pos := by
  have behind := callsAt.boundary_behind decoded
  have entered := scanning.woven.enter_lt callsAt.boundary behind (Nat.lt_succ_self here)
  rw [callsAt.found, callsAt.moved]
  exact Nat.lt_of_lt_of_le entered (callsAt.rewoven.forward behind)

theorem CallsAt.before (scanning : Scanning old table weaving cursor) (boundary : old.IsBoundary entry)
    (right : Right old entry length weaving cursor) (inside : cursor.pos < subroutineAt cursor length) :
    here < entry := by
  have found := callsAt.found
  have tail := right.tail
  unfold subroutineAt at inside
  by_contra above
  rcases Nat.lt_or_eq_of_le (Nat.le_of_not_lt above) with less | rfl
  · have := scanning.woven.enter_lt boundary callsAt.boundary less
    omega
  · omega

end CallsAt

theorem callStep_scanning (decoded : Listing.decode base = .ok old)
    (boundary : old.IsBoundary entry) (scanning : Scanning old table weaving cursor)
    (stepped : callStep cursor length = .ok (some (next, count))) :
    cursor.pos < next.pos ∧ cursor.pos < Code.maxLength ∧
      ((count = 0 ∧ Scanning old table weaving next ∧
          (Right old entry length weaving cursor → Right old entry length weaving next)) ∨
        (count = 1 ∧ ∃ weaving' passed mark, cursor.next = .ok (some (cursor.pos, passed)) ∧
          callBefore (passed.moveTo (weaving.enter entry)) cursor.pos length = .ok mark ∧
          mark = next.moveTo (weaving'.enter entry) ∧ Scanning old table weaving' next ∧
          (Right old entry length weaving cursor →
            KeepsLength length mark ∧ Right old entry length weaving' next ∨
              ¬ KeepsLength length mark ∧ Wrong old entry weaving') ∧
          (Wrong old entry weaving → Wrong old entry weaving'))) := by
  obtain ⟨size, opcode, more, measured, advanced, inside, read, done⟩ := callStep_eq_some stepped
  have inCode := Nat.lt_of_lt_of_le more scanning.bounded
  rcases done with ⟨returns, rfl, called⟩ | ⟨other, rfl, rfl⟩
  · obtain ⟨weaving', here, located, goal, callsAt⟩ :=
      scanning.exists_callsAt decoded more measured advanced read returns called
    obtain ⟨passed, advanced, _, marks⟩ := callsAt.marks
    refine ⟨callsAt.forward decoded scanning, inCode, .inr ⟨rfl, weaving', _, _, advanced,
      marks boundary, rfl, callsAt.scanning decoded scanning, fun right => ?_, fun wrong =>
      wrong.call callsAt.rewoven boundary callsAt.empty⟩⟩
    have before := callsAt.before scanning boundary right inside
    have leads := callsAt.leads boundary before
    by_cases kept : KeepsLength length (next.moveTo (weaving'.enter entry))
    · exact .inl ⟨kept, right.call decoded scanning callsAt.rewoven callsAt.calls (leads.2 kept) kept
        callsAt.member callsAt.short boundary before callsAt.found callsAt.moved⟩
    · exact .inr ⟨kept, here, goal, callsAt.boundary, callsAt.calls, fun same => kept (leads.1 same)⟩
  · refine ⟨Nat.lt_add_of_pos_right (Code.length_pos measured), inCode, .inl ⟨rfl,
      scanning.skip more measured, fun right => ?_⟩⟩
    exact right.skip decoded scanning boundary more measured inside read other

theorem callStep_lt_roomAhead (decoded : Listing.decode base = .ok old)
    (scanning : Scanning old table weaving cursor)
    (stepped : callStep cursor length = .ok (some (next, count))) :
    roomAhead next < roomAhead cursor := by
  obtain ⟨forward, inCode, done⟩ :=
    callStep_scanning decoded (Code.isBoundary_zero decoded) scanning stepped
  have bounded : next.code.bytes.size ≤ Code.maxLength := by
    rcases done with ⟨_, scanning', _⟩ | ⟨_, _, _, _, _, _, _, scanning', _⟩
    · exact scanning'.bounded
    · exact scanning'.bounded
  have := scanning.bounded
  unfold roomAhead
  omega

theorem callFrom_scanned {calls total : Nat} {code : Code} (decoded : Listing.decode base = .ok old)
    (boundary : old.IsBoundary entry) (scanning : Scanning old table weaving cursor)
    (done : callFrom length calls cursor = .ok (total, code)) :
    ∃ marks weaving' last, Scan length cursor (weaving.enter entry) marks last ∧
      total = calls + marks.length ∧ last.code = code ∧ callStep last length = .ok none ∧
      Scanning old table weaving' last ∧
      (Right old entry length weaving cursor →
        (∀ mark ∈ marks, KeepsLength length mark) ∧ Right old entry length weaving' last ∨
          (∃ mark ∈ marks, ¬ KeepsLength length mark) ∧ Wrong old entry weaving') ∧
      (Wrong old entry weaving → Wrong old entry weaving') := by
  fun_induction callFrom length calls cursor generalizing weaving with
  | case1 => cases done
  | case2 calls cursor stopped =>
      cases done
      exact ⟨[], weaving, cursor, .stop stopped, rfl, rfl, stopped, scanning, fun right =>
        .inl ⟨nofun, right⟩, id⟩
  | case3 calls cursor next inserted stepped _ ih =>
      obtain ⟨_, _, skipped | called⟩ := callStep_scanning decoded boundary scanning stepped
      · obtain ⟨rfl, scanning', right'⟩ := skipped
        obtain ⟨marks, weaving', last, scan, count, same, stopped, scanned, right, wrong⟩ :=
          ih scanning' done
        exact ⟨marks, weaving', last, .skip stepped scan, count, same, stopped, scanned,
          fun whole => right (right' whole), wrong⟩
      · obtain ⟨rfl, weaving', passed, _, found, marked, rfl, scanning', right', wrong'⟩ := called
        obtain ⟨marks, weaving'', last, scan, count, same, stopped, scanned, right, wrong⟩ :=
          ih scanning' done
        refine ⟨next.moveTo (weaving'.enter entry) :: marks, weaving'', last,
          .call found stepped marked scan, ?_, same, stopped, scanned, fun whole => ?_,
          fun before => wrong (wrong' before)⟩
        · rw [count, List.length_cons]
          omega
        · rcases right' whole with ⟨kept, whole⟩ | ⟨lost, before⟩
          · rcases right whole with ⟨all, whole⟩ | ⟨⟨one, member, lost⟩, after⟩
            · exact .inl ⟨List.forall_mem_cons.2 ⟨kept, all⟩, whole⟩
            · exact .inr ⟨⟨one, List.mem_cons_of_mem _ member, lost⟩, after⟩
          · exact .inr ⟨⟨_, List.mem_cons_self, lost⟩, wrong before⟩
  | case4 calls cursor next inserted stepped stuck =>
      exact absurd (callStep_lt_roomAhead decoded scanning stepped) stuck

theorem Scan.keepsLength {marks : List Cursor} {last : Cursor}
    (decoded : Listing.decode base = .ok old) (boundary : old.IsBoundary entry)
    (scanning : Scanning old table weaving cursor)
    (rigid : ∀ {weaving : Weaving} {cursor : Cursor}, Scanning old table weaving cursor →
      weaving.enter entry + length = cursor.code.bytes.size)
    (scan : Scan length cursor (weaving.enter entry) marks last) :
    ∀ mark ∈ marks, KeepsLength length mark := by
  generalize entered : weaving.enter entry = place at scan
  induction scan generalizing weaving with
  | stop => exact nofun
  | skip stepped _ ih =>
      obtain ⟨_, _, ⟨_, scanning, _⟩ | ⟨absurd, _⟩⟩ := callStep_scanning decoded boundary scanning stepped
      · exact ih scanning entered
      · cases absurd
  | call found stepped marked _ ih =>
      subst entered
      obtain ⟨_, _, ⟨absurd, _⟩ | ⟨_, weaving', _, _, found', marked', rfl, scanning, _⟩⟩ :=
        callStep_scanning decoded boundary scanning stepped
      · cases absurd
      · cases found.symm.trans found'
        cases marked.symm.trans marked'
        have kept := rigid scanning
        exact List.forall_mem_cons.2 ⟨kept, ih scanning rfl⟩

theorem callBefore_opens {pos : Nat} (called : callBefore cursor pos length = .ok next) :
    ∃ next now moved, Cursor.Opened cursor next now moved := by
  obtain ⟨_, opened, _⟩ := bind_eq_ok.1 called
  unfold openCall at opened
  split at opened
  · obtain ⟨_, inserted, _⟩ := bind_eq_ok.1 opened
    obtain ⟨now, _, opened⟩ := Cursor.insertGap_opened inserted
    exact ⟨_, now, _, opened⟩
  · obtain ⟨_, inserted, _⟩ := bind_eq_ok.1 opened
    obtain ⟨now, _, opened⟩ := Cursor.insertGap_opened inserted
    exact ⟨_, now, _, opened⟩

theorem callStep_opens (stepped : callStep cursor length = .ok (some (next, count))) :
    next.code = cursor.code ∨ ∃ pos next now moved,
      Cursor.Opened ⟨cursor.code, pos⟩ next now moved := by
  obtain ⟨size, opcode, _, _, _, _, _, done⟩ := callStep_eq_some stepped
  rcases done with ⟨_, _, called⟩ | ⟨_, _, rfl⟩
  · exact .inr ⟨_, callBefore_opens called⟩
  · exact .inl rfl

theorem callFrom_opens {calls total : Nat} {code : Code}
    (done : callFrom length calls cursor = .ok (total, code)) :
    code = cursor.code ∨ ∃ pos next now moved,
      Cursor.Opened ⟨cursor.code, pos⟩ next now moved := by
  fun_induction callFrom length calls cursor with
  | case1 => cases done
  | case2 calls cursor stopped =>
      cases done
      exact .inl rfl
  | case3 calls cursor next inserted stepped _ ih =>
      rcases callStep_opens stepped with same | opened
      · rw [← same]
        exact ih done
      · exact .inr opened
  | case4 calls cursor next inserted stepped stuck =>
      cases done
      exact callStep_opens stepped

theorem exists_decode_of_callFrom {calls total : Nat} {code : Code} {listing : Listing}
    (done : callFrom length calls cursor = .ok (total, code))
    (decoded : Listing.decode code.bytes = .ok listing) :
    ∃ now, Listing.decode cursor.code.bytes = .ok now := by
  rcases callFrom_opens done with rfl | ⟨_, _, now, _, opened⟩
  · exact ⟨listing, decoded⟩
  · exact ⟨now, opened.decoded⟩

end Run

/-- A call of the subroutine at `entry` stands in front of every return of the body, and nothing
stands in front of any other instruction. -/
structure CallsReturns (body old : Listing) (entry : Nat) (weaving : Weaving) : Prop where
  returns : ∀ {pos : Nat} {located : Located}, (pos, located) ∈ body.entries →
    located.instruction.IsReturn → weaving.Calls pos (weaving.place entry)
  others : ∀ {pos : Nat}, old.IsBoundary pos →
    (∀ located, (pos, located) ∈ body.entries → ¬ located.instruction.IsReturn) →
    weaving.inserted pos = []

section CallsReturns

variable {base : Array UInt8} {body old : Listing} {table : HandlerTable} {weaving : Weaving}
  {cursor : Cursor} {entry length : Nat} {store : Located}

theorem Right.pos_eq_of_stopped (right : Right old entry length weaving cursor)
    (stopped : callStep cursor length = .ok none) : cursor.pos = weaving.enter entry := by
  have tail := right.tail
  have before := right.before
  rcases callStep_eq_none stopped with ended | reached
  · omega
  · unfold subroutineAt at reached
    omega

theorem Right.callsReturns (scanning : Scanning old table weaving cursor)
    (right : Right old entry length weaving cursor) (stopped : callStep cursor length = .ok none)
    (same : ∀ {pos : Nat} {located : Located}, located.instruction.IsReturn →
      ((pos, located) ∈ body.entries ↔ (pos, located) ∈ old.entries ∧ pos < entry))
    (member : (entry, store) ∈ old.entries) : CallsReturns body old entry weaving := by
  have woven := scanning.woven
  have boundary : old.IsBoundary entry := .inr ⟨store, member⟩
  have below := woven.enter_le_place boundary
  have empty := scanning.behind boundary (Nat.le_trans right.before below)
  have reached := Nat.le_of_eq (right.pos_eq_of_stopped stopped).symm
  constructor
  · intro pos located known returns
    obtain ⟨known, less⟩ := (same returns).1 known
    have before := woven.ordered (.inr ⟨located, known⟩) boundary less
    rw [← woven.enter_eq_place boundary empty]
    exact right.called known returns (Nat.lt_of_lt_of_le before reached)
  · intro pos known other
    rcases scanning.calls known with empty | ⟨_, located, listed, returns⟩
    · exact empty
    · apply scanning.behind known
      have behind : entry ≤ pos := by
        by_contra less
        exact other located ((same returns).2 ⟨listed, by omega⟩) returns
      rcases Nat.lt_or_eq_of_le behind with less | rfl
      · have := woven.enter_lt boundary known less
        have := woven.enter_le_place known
        have := right.before
        omega
      · exact Nat.le_trans right.before below

theorem Wrong.not_callsReturns (woven : Woven old weaving cursor.code.bytes)
    (wrong : Wrong old entry weaving)
    (same : ∀ {pos : Nat} {located : Located}, located.instruction.IsReturn →
      ((pos, located) ∈ body.entries ↔ (pos, located) ∈ old.entries ∧ pos < entry))
    (boundary : old.IsBoundary entry) : ¬ CallsReturns body old entry weaving := by
  intro holds
  obtain ⟨pos, goal, known, calls, elsewhere⟩ := wrong
  have entered : weaving.enter entry = weaving.place entry := by
    apply woven.enter_eq_place boundary
    apply holds.others boundary
    intro located member returns
    exact absurd ((same returns).1 member).2 (Nat.lt_irrefl _)
  apply calls.ne_nil
  apply holds.others known
  intro located member returns
  apply elsewhere
  rw [entered]
  exact calls.unique (holds.returns member returns)

end CallsReturns

end ClassSplice.Edit
