import ClassSplice.Proofs.Code.Reading
import ClassSplice.Proofs.Code.Tiling
import ClassSplice.Proofs.OffsetTable

namespace ClassSplice.Code

inductive Runs (code : Array UInt8) : Nat → List (Nat × Located) → Nat → Prop
  | done (pos : Nat) : Runs code pos [] pos
  | step {pos stop : Nat} {located : Located} {entries : List (Nat × Located)}
      (reads : Reads code pos located) (rest : Runs code (pos + located.length) entries stop) :
      Runs code pos ((pos, located) :: entries) stop

section Runs

variable {code : Array UInt8} {start middle stop pos : Nat} {located : Located}
  {entries front back : List (Nat × Located)}

theorem Runs.inv (run : Runs code start entries stop) :
    (entries = [] ∧ start = stop) ∨ ∃ located rest, entries = (start, located) :: rest ∧
      Reads code start located ∧ Runs code (start + located.length) rest stop := by
  cases run with
  | done => exact .inl ⟨rfl, rfl⟩
  | step reads rest => exact .inr ⟨_, _, rfl, reads, rest⟩

theorem runs_append :
    Runs code start (front ++ back) stop ↔
      ∃ middle, Runs code start front middle ∧ Runs code middle back stop := by
  constructor
  · intro run
    induction front generalizing start with
    | nil => exact ⟨start, .done start, run⟩
    | cons entry front ih =>
        cases run with
        | step reads rest =>
            obtain ⟨middle, first, second⟩ := ih rest
            exact ⟨middle, .step reads first, second⟩
  · rintro ⟨middle, first, second⟩
    induction first with
    | done => exact second
    | step reads rest ih => exact .step reads (ih second)

theorem Runs.append (first : Runs code start front middle) (second : Runs code middle back stop) :
    Runs code start (front ++ back) stop :=
  runs_append.2 ⟨middle, first, second⟩

theorem Runs.single (reads : Reads code pos located) :
    Runs code pos [(pos, located)] (pos + located.length) :=
  .step reads (.done _)

theorem runs_singleton {start' : Nat} :
    Runs code start [(start', located)] stop ↔
      start' = start ∧ Reads code start located ∧ stop = start + located.length := by
  constructor
  · intro run
    cases run with
    | step reads rest =>
        cases rest
        exact ⟨rfl, reads, rfl⟩
  · rintro ⟨rfl, reads, rfl⟩
    exact .single reads

theorem Runs.le (run : Runs code start entries stop) : start ≤ stop := by
  induction run with
  | done => exact Nat.le_refl _
  | step reads rest ih => omega

theorem Runs.lt (run : Runs code start entries stop) (nonempty : entries ≠ []) : start < stop := by
  cases run with
  | done => exact absurd rfl nonempty
  | step reads rest =>
      have := rest.le
      have := reads.length_pos
      omega

theorem Runs.stop_le_size (run : Runs code start entries stop) (bounded : start ≤ code.size) :
    stop ≤ code.size := by
  induction run with
  | done => exact bounded
  | step reads rest ih => exact ih reads.le_size

theorem Runs.tiles (run : Runs code start entries stop) :
    Tiles code start (entries.map Prod.fst) stop := by
  induction run with
  | done => exact .done _
  | step reads rest ih => exact .step reads.1 ih

theorem Runs.split (run : Runs code start entries stop) (member : (pos, located) ∈ entries) :
    ∃ front back, entries = front ++ (pos, located) :: back ∧ Runs code start front pos ∧
      Reads code pos located ∧ Runs code (pos + located.length) back stop := by
  induction run with
  | done => cases member
  | @step start stop found entries reads rest ih =>
      cases List.mem_cons.1 member with
      | inl same =>
          cases same
          exact ⟨[], entries, rfl, .done _, reads, rest⟩
      | inr later =>
          obtain ⟨front, back, rfl, before, here, behind⟩ := ih later
          exact ⟨(start, found) :: front, back, rfl, .step reads before, here, behind⟩

theorem Runs.mem_bounds (run : Runs code start entries stop) (member : (pos, located) ∈ entries) :
    Reads code pos located ∧ start ≤ pos ∧ pos + located.length ≤ stop := by
  obtain ⟨front, back, rfl, before, here, behind⟩ := run.split member
  exact ⟨here, before.le, behind.le⟩

theorem Runs.last (run : Runs code start entries stop) :
    start = stop ∨ ∃ pos located, (pos, located) ∈ entries ∧ pos + located.length = stop := by
  induction run with
  | done => exact .inl rfl
  | @step start stop located entries reads rest ih =>
      rcases ih with same | ⟨pos, located, member, same⟩
      · exact .inr ⟨start, located, List.mem_cons_self, same⟩
      · exact .inr ⟨pos, located, List.mem_cons_of_mem _ member, same⟩

theorem Runs.pairwise (run : Runs code start entries stop) :
    entries.Pairwise fun one other => one.1 < other.1 := by
  induction run with
  | done => exact .nil
  | step reads rest ih =>
      refine .cons (fun entry member => ?_) ih
      have := (rest.mem_bounds (show (entry.1, entry.2) ∈ _ from member)).2.1
      have := reads.length_pos
      dsimp only
      omega

theorem Runs.unique {other : List (Nat × Located)} (run : Runs code start entries stop)
    (run' : Runs code start other stop) : entries = other := by
  induction run generalizing other with
  | done =>
      cases run' with
      | done => rfl
      | step reads rest =>
          have := rest.le
          have := reads.length_pos
          omega
  | step reads rest ih =>
      cases run' with
      | done =>
          have := rest.le
          have := reads.length_pos
          omega
      | step reads' rest' =>
          cases reads.unique reads'
          rw [ih rest']

theorem Runs.cancel {whole : List (Nat × Located)} (run : Runs code start whole stop)
    (first : Runs code start front middle) (inside : middle ≤ stop) :
    ∃ back, whole = front ++ back ∧ Runs code middle back stop := by
  induction first generalizing whole with
  | done => exact ⟨whole, rfl, run⟩
  | step reads rest ih =>
      rcases run.inv with ⟨_, ended⟩ | ⟨located, whole, rfl, reads', run⟩
      · have := rest.le
        have := reads.length_pos
        omega
      · cases reads.unique reads'
        obtain ⟨back, rfl, behind⟩ := ih run inside
        exact ⟨back, rfl, behind⟩

theorem Reads.startsSwitch_eq (reads : Reads code pos located) :
    startsSwitch code pos = located.instruction.isSwitch := by
  have inCode := reads.le_size
  have room := reads.length_pos
  have first : code[pos]? = some code[pos] := Array.getElem?_eq_getElem (by omega)
  rw [startsSwitch, first, Option.any_some, reads.isSwitch_eq (byteAt_eq_ok.2 first)]

def SameOn (code code' : Array UInt8) (start stop : Nat) : Prop :=
  ∀ pos, start ≤ pos → pos < stop → code'[pos]? = code[pos]?

theorem Reads.transfer {code' : Array UInt8} (reads : Reads code pos located)
    (same : SameOn code code' pos (pos + located.length)) : Reads code' pos located := by
  have inCode := reads.le_size
  have room := reads.length_pos
  have inCode' : pos + located.length ≤ code'.size := by
    have last := same (pos + located.length - 1) (by omega) (by omega)
    have known : pos + located.length - 1 < code.size := by omega
    rw [Array.getElem?_eq_getElem known, Array.getElem?_eq_some_iff] at last
    obtain ⟨bounded, _⟩ := last
    omega
  have held := holds_extract inCode (Nat.le_add_right pos located.length)
  have held' := holds_extract inCode' (Nat.le_add_right pos located.length)
  have bytes : (code'.extract pos (pos + located.length)).toList =
      (code.extract pos (pos + located.length)).toList := by
    rw [Array.toList_inj]
    refine Array.ext (by simp only [Array.size_extract]; omega) fun i inside inside' => ?_
    rw [Array.size_extract] at inside
    have := same (pos + i) (Nat.le_add_right _ _) (by omega)
    rw [Array.getElem?_eq_getElem (by omega), Array.getElem?_eq_getElem (by omega)] at this
    simpa using this
  rw [bytes] at held'
  have moved := reads.congr held held' (by simp; omega) fun _ => rfl
  rwa [Int.sub_self, Instruction.shift_zero] at moved

theorem Runs.transfer {code' : Array UInt8} (run : Runs code start entries stop)
    (same : SameOn code code' start stop) : Runs code' start entries stop := by
  induction run with
  | done => exact .done _
  | @step pos stop located entries reads rest ih =>
      have behind := rest.le
      refine .step (reads.transfer fun i low high => same i low (by omega)) (ih fun i low high => ?_)
      exact same i (by omega) high

theorem Runs.append_right (run : Runs code start entries stop) (more : Array UInt8) :
    Runs (code ++ more) start entries stop := by
  obtain bounded | outside := Nat.lt_or_ge code.size stop |>.symm
  · refine run.transfer fun pos _ high => Array.getElem?_append_left (by omega)
  · induction run with
    | done => exact .done _
    | step reads rest ih =>
        have := rest.stop_le_size reads.le_size
        omega

def shiftedBy (distance : Nat) (entry : Nat × Located) : Nat × Located :=
  (distance + entry.1, ⟨entry.2.length, entry.2.instruction.shift distance⟩)

theorem Runs.shift {bytes : List UInt8} {base : Nat} (run : Runs bytes.toArray start entries stop)
    (aligned : ∀ entry ∈ entries, entry.2.instruction.isSwitch = true → 4 ∣ base)
    (held : Holds code base bytes) :
    Runs code (base + start) (entries.map (shiftedBy base)) (base + stop) := by
  induction run with
  | done => exact .done _
  | @step pos stop located entries reads rest ih =>
      have behind := ih fun entry member => aligned entry (List.mem_cons_of_mem _ member)
      have inside : pos + located.length ≤ bytes.length := by simpa using reads.le_size
      have own : Holds bytes.toArray 0 bytes := ⟨[], [], by simp, rfl⟩
      have part := own.part pos located.length inside
      rw [Nat.zero_add] at part
      have whole : ((bytes.drop pos).take located.length).length = located.length := by
        rw [List.length_take, List.length_drop]
        omega
      have here := reads.congr part (held.part pos located.length inside) whole fun switch => by
        have := aligned _ List.mem_cons_self switch
        omega
      have distance : ((base + pos : Nat) : Int) - pos = base := by omega
      rw [distance] at here
      rw [← Nat.add_assoc] at behind
      exact .step here behind

theorem Runs.elsewhere {bytes : List UInt8} {base : Nat} (run : Runs bytes.toArray start entries stop)
    (straight : ∀ entry ∈ entries, entry.2.instruction.isSwitch = false)
    (held : Holds code base bytes) : ∃ moved, Runs code (base + start) moved (base + stop) :=
  ⟨_, run.shift (fun entry member switch => by simp [straight entry member] at switch) held⟩

end Runs

theorem decodeOnto_eq_ok {code : Array UInt8} {listing result : Listing}
    (bounded : listing.next ≤ code.size) :
    Listing.decodeOnto code listing = .ok result ↔
      ∃ entries, result.entries.toList = listing.entries.toList ++ entries ∧
        Runs code listing.next entries result.next ∧ result.next = code.size := by
  fun_induction Listing.decodeOnto code listing with
  | case1 listing inCode error failed =>
      refine ⟨(by rintro ⟨⟩), ?_⟩
      rintro ⟨entries, _, run, reached⟩
      obtain ⟨_, same⟩ | ⟨_, _, _, reads, _⟩ := run.inv
      · omega
      · cases failed.symm.trans reads.1
  | case2 listing inCode length measured _ error failed =>
      refine ⟨(by rintro ⟨⟩), ?_⟩
      rintro ⟨entries, _, run, reached⟩
      obtain ⟨_, same⟩ | ⟨located, _, _, reads, _⟩ := run.inv
      · omega
      · obtain ⟨measured', decoded⟩ := reads
        cases located
        cases measured.symm.trans measured'
        cases failed.symm.trans decoded
  | case3 listing inCode length measured _ instruction decoded ih =>
      have reads : Reads code listing.next ⟨length, instruction⟩ := ⟨measured, decoded⟩
      rw [ih reads.le_size]
      simp only [OffsetTable.push, Array.toList_push, List.append_assoc, List.singleton_append]
      constructor
      · rintro ⟨entries, same, run, reached⟩
        exact ⟨_, same, .step reads run, reached⟩
      · rintro ⟨entries, same, run, reached⟩
        obtain ⟨_, ended⟩ | ⟨_, rest, rfl, reads', run⟩ := run.inv
        · omega
        · cases reads.unique reads'
          exact ⟨rest, same, run, reached⟩
  | case4 listing ended =>
      constructor
      · rintro ⟨⟩
        exact ⟨[], by simp, .done _, by omega⟩
      · rintro ⟨entries, same, run, reached⟩
        obtain ⟨rfl, ended⟩ | ⟨_, _, _, reads, _⟩ := run.inv
        · rw [List.append_nil, Array.toList_inj] at same
          cases listing
          cases result
          simp_all
        · have := reads.le_size
          have := reads.length_pos
          omega

theorem decode_eq_ok {code : Array UInt8} {listing : Listing} :
    Listing.decode code = .ok listing ↔
      Runs code 0 listing.entries.toList listing.next ∧ listing.next = code.size := by
  rw [Listing.decode, decodeOnto_eq_ok (Nat.zero_le _)]
  constructor
  · rintro ⟨entries, same, run, reached⟩
    rw [show listing.entries.toList = entries from same]
    exact ⟨run, reached⟩
  · rintro ⟨run, reached⟩
    exact ⟨_, rfl, run, reached⟩

theorem decode_of_runs {code : Array UInt8} {entries : List (Nat × Located)}
    (run : Runs code 0 entries code.size) :
    Listing.decode code = .ok ⟨entries.toArray, code.size⟩ :=
  decode_eq_ok.2 ⟨run, rfl⟩

theorem instructionStarts_of_decode {code : Array UInt8} {listing : Listing}
    (decoded : Listing.decode code = .ok listing) :
    instructionStarts code = .ok (listing.entries.map Prod.fst) := by
  obtain ⟨run, ended⟩ := decode_eq_ok.1 decoded
  rw [instructionStarts_eq run.tiles (.ended (Nat.le_of_eq ended.symm)), verdict]
  simp [← Array.toList_map]

/-- An offset at which an instruction of the listing starts, or the end of the code. -/
def Listing.IsBoundary (listing : Listing) (pos : Nat) : Prop :=
  pos = listing.next ∨ ∃ located, (pos, located) ∈ listing.entries

section Decoded

variable {code : Array UInt8} {listing : Listing} {pos index : Nat} {located : Located}

theorem increasing_of_decode (decoded : Listing.decode code = .ok listing) :
    OffsetTable.Increasing listing := by
  have pairwise := (decode_eq_ok.1 decoded).1.pairwise
  rw [List.pairwise_iff_getElem] at pairwise
  intro i j less inRange inRange'
  exact pairwise i j inRange' inRange less

theorem reads_of_mem (decoded : Listing.decode code = .ok listing)
    (member : (pos, located) ∈ listing.entries) : Reads code pos located :=
  ((decode_eq_ok.1 decoded).1.mem_bounds (Array.mem_toList_iff.2 member)).1

theorem located_unique {located' : Located} (decoded : Listing.decode code = .ok listing)
    (member : (pos, located) ∈ listing.entries) (member' : (pos, located') ∈ listing.entries) :
    located = located' :=
  (reads_of_mem decoded member).unique (reads_of_mem decoded member')

theorem lt_next_of_mem (decoded : Listing.decode code = .ok listing)
    (member : (pos, located) ∈ listing.entries) : pos < listing.next := by
  have bounds := (decode_eq_ok.1 decoded).1.mem_bounds (Array.mem_toList_iff.2 member)
  have := bounds.1.length_pos
  omega

theorem indexAt_eq_ok (decoded : Listing.decode code = .ok listing) :
    listing.indexAt pos = .ok index ↔
      (pos = listing.next ∧ index = listing.entries.size) ∨
        ∃ located, listing.entries[index]? = some (pos, located) := by
  have sorted := increasing_of_decode decoded
  rw [Listing.indexAt]
  split
  · rename_i atEnd
    constructor
    · rintro ⟨⟩
      exact .inl ⟨atEnd, rfl⟩
    · rintro (⟨_, rfl⟩ | ⟨located, known⟩)
      · rfl
      · have := lt_next_of_mem decoded (Array.mem_of_getElem? known)
        omega
  · rename_i notEnd
    simp only [notEnd, false_and, false_or, ← OffsetTable.lookup_eq_found sorted]
    split
    · rename_i found
      rw [found]
      simp
    · rename_i missing
      simp only [reduceCtorEq, false_iff, not_exists]
      exact fun located found => missing _ _ found

theorem isBoundary_iff (decoded : Listing.decode code = .ok listing) :
    listing.IsBoundary pos ↔ ∃ index, listing.indexAt pos = .ok index := by
  simp only [indexAt_eq_ok decoded]
  constructor
  · rintro (rfl | ⟨located, member⟩)
    · exact ⟨_, .inl ⟨rfl, rfl⟩⟩
    · obtain ⟨index, known⟩ := Array.mem_iff_getElem?.1 member
      exact ⟨index, .inr ⟨located, known⟩⟩
  · rintro ⟨index, ⟨rfl, _⟩ | ⟨located, known⟩⟩
    · exact .inl rfl
    · exact .inr ⟨located, Array.mem_of_getElem? known⟩

theorem indexAt_lt_iff (decoded : Listing.decode code = .ok listing) {pos' index' : Nat}
    (found : listing.indexAt pos = .ok index) (found' : listing.indexAt pos' = .ok index') :
    pos < pos' ↔ index < index' := by
  have above {one other i j : Nat} (first : listing.indexAt one = .ok i)
      (second : listing.indexAt other = .ok j) (less : i < j) : one < other := by
    obtain ⟨_, rfl⟩ | ⟨located, known⟩ := (indexAt_eq_ok decoded).1 first
    · obtain ⟨_, rfl⟩ | ⟨located', known'⟩ := (indexAt_eq_ok decoded).1 second
      · exact absurd less (Nat.lt_irrefl _)
      · exact absurd (Array.getElem?_eq_some_iff.1 known').1 (Nat.not_lt_of_gt less)
    · obtain ⟨rfl, rfl⟩ | ⟨located', known'⟩ := (indexAt_eq_ok decoded).1 second
      · exact lt_next_of_mem decoded (Array.mem_of_getElem? known)
      · obtain ⟨inRange, same⟩ := Array.getElem?_eq_some_iff.1 known
        obtain ⟨inRange', same'⟩ := Array.getElem?_eq_some_iff.1 known'
        simpa only [same, same'] using increasing_of_decode decoded i j less inRange'
  have unique (same : index = index') : pos = pos' := by
    subst same
    obtain ⟨rfl, rfl⟩ | ⟨located, known⟩ := (indexAt_eq_ok decoded).1 found
    · obtain ⟨rfl, _⟩ | ⟨_, known'⟩ := (indexAt_eq_ok decoded).1 found'
      · rfl
      · exact absurd (Array.getElem?_eq_some_iff.1 known').1 (Nat.lt_irrefl _)
    · obtain ⟨_, rfl⟩ | ⟨_, known'⟩ := (indexAt_eq_ok decoded).1 found'
      · exact absurd (Array.getElem?_eq_some_iff.1 known).1 (Nat.lt_irrefl _)
      · exact congrArg Prod.fst (Option.some.inj (known.symm.trans known'))
  constructor
  · intro less
    rcases Nat.lt_trichotomy index index' with below | same | behind
    · exact below
    · exact absurd less (unique same ▸ Nat.lt_irrefl pos)
    · exact absurd less (Nat.not_lt_of_gt (above found' found behind))
  · exact above found found'

theorem indexAt_inj (decoded : Listing.decode code = .ok listing) {pos' : Nat}
    (found : listing.indexAt pos = .ok index) (found' : listing.indexAt pos' = .ok index) :
    pos = pos' := by
  have one := indexAt_lt_iff decoded found found'
  have other := indexAt_lt_iff decoded found' found
  omega

theorem indexAt_zero (decoded : Listing.decode code = .ok listing) : listing.indexAt 0 = .ok 0 := by
  rw [indexAt_eq_ok decoded]
  obtain ⟨empty, ended⟩ | ⟨located, rest, listed, _⟩ := (decode_eq_ok.1 decoded).1.inv
  · exact .inl ⟨ended, by rw [← Array.length_toList, empty, List.length_nil]⟩
  · exact .inr ⟨located, by rw [← Array.getElem?_toList, listed, List.getElem?_cons_zero]⟩

theorem indexAt_behind (decoded : Listing.decode code = .ok listing)
    (known : listing.entries[index]? = some (pos, located)) :
    listing.indexAt (pos + located.length) = .ok (index + 1) := by
  have next {entries : List (Nat × Located)} {start stop : Nat} (run : Runs code start entries stop) :
      ∀ i : Nat, entries[i]? = some (pos, located) →
        (pos + located.length = stop ∧ i + 1 = entries.length) ∨
          ∃ located', entries[i + 1]? = some (pos + located.length, located') := by
    induction run with
    | done => simp
    | @step start stop found entries reads rest ih =>
        intro i known
        cases i with
        | zero =>
            cases Option.some.inj known
            obtain ⟨rfl, same⟩ | ⟨located', rest, rfl, _⟩ := rest.inv
            · exact .inl ⟨same, rfl⟩
            · exact .inr ⟨located', rfl⟩
        | succ i =>
            obtain ⟨same, last⟩ | behind := ih i known
            · exact .inl ⟨same, congrArg (· + 1) last⟩
            · exact .inr behind
  rw [indexAt_eq_ok decoded]
  obtain ⟨same, last⟩ | ⟨located', behind⟩ := next (decode_eq_ok.1 decoded).1 index (by simpa using known)
  · exact .inl ⟨same, last⟩
  · exact .inr ⟨located', by simpa using behind⟩

theorem isBoundary_iff_runs (decoded : Listing.decode code = .ok listing) :
    listing.IsBoundary pos ↔ ∃ front back, listing.entries.toList = front ++ back ∧
      Runs code 0 front pos ∧ Runs code pos back listing.next := by
  have run := (decode_eq_ok.1 decoded).1
  constructor
  · rintro (rfl | ⟨located, member⟩)
    · exact ⟨_, [], (List.append_nil _).symm, run, .done _⟩
    · obtain ⟨front, back, listed, before, reads, behind⟩ := run.split (Array.mem_toList_iff.2 member)
      exact ⟨front, _, listed, before, .step reads behind⟩
  · rintro ⟨front, back, listed, before, behind⟩
    rcases behind.inv with ⟨_, ended⟩ | ⟨located, rest, rfl, _⟩
    · exact .inl ended
    · refine .inr ⟨located, Array.mem_toList_iff.1 ?_⟩
      rw [listed]
      exact List.mem_append_right _ List.mem_cons_self

theorem Listing.IsBoundary.le_next (decoded : Listing.decode code = .ok listing)
    (boundary : listing.IsBoundary pos) : pos ≤ listing.next := by
  rcases boundary with rfl | ⟨located, member⟩
  · exact Nat.le_refl _
  · exact Nat.le_of_lt (lt_next_of_mem decoded member)

theorem isBoundary_of_runs {front back : List (Nat × Located)} {stop : Nat}
    (decoded : Listing.decode code = .ok listing) (before : Runs code 0 front pos)
    (behind : Runs code pos back stop) (ended : stop = code.size) : listing.IsBoundary pos := by
  obtain ⟨run, size⟩ := decode_eq_ok.1 decoded
  rw [ended, ← size] at behind
  exact (isBoundary_iff_runs decoded).2 ⟨front, back, run.unique (before.append behind), before, behind⟩

theorem isBoundary_zero (decoded : Listing.decode code = .ok listing) : listing.IsBoundary 0 :=
  (isBoundary_iff decoded).2 ⟨0, indexAt_zero decoded⟩

theorem isBoundary_behind (decoded : Listing.decode code = .ok listing)
    (member : (pos, located) ∈ listing.entries) : listing.IsBoundary (pos + located.length) := by
  obtain ⟨index, known⟩ := Array.mem_iff_getElem?.1 member
  exact (isBoundary_iff decoded).2 ⟨_, indexAt_behind decoded known⟩

theorem Listing.IsBoundary.of_prefix {base : Array UInt8} {old : Listing}
    (boundary : listing.IsBoundary pos) (decoded : Listing.decode code = .ok listing)
    (decoded' : Listing.decode base = .ok old)
    (front : listing.entries.toList <+: old.entries.toList) : old.IsBoundary pos := by
  have known (entry : Nat × Located) (member : entry ∈ listing.entries.toList) :
      entry ∈ old.entries :=
    Array.mem_toList_iff.1 (front.subset member)
  rcases boundary with rfl | ⟨located, member⟩
  · rcases (decode_eq_ok.1 decoded).1.last with same | ⟨pos, located, member, same⟩
    · exact same ▸ isBoundary_zero decoded'
    · exact same ▸ isBoundary_behind decoded' (known _ member)
  · exact .inr ⟨located, known _ (Array.mem_toList_iff.2 member)⟩

theorem Listing.IsBoundary.runs {entries : List (Nat × Located)} {stop : Nat}
    (boundary : listing.IsBoundary pos) (decoded : Listing.decode code = .ok listing)
    (run : Runs code pos entries stop) :
    (∀ entry ∈ entries, entry ∈ listing.entries) ∧ listing.IsBoundary stop := by
  obtain ⟨front, back, listed, before, behind⟩ := (isBoundary_iff_runs decoded).1 boundary
  have size := (decode_eq_ok.1 decoded).2
  have inside : stop ≤ listing.next := size ▸ run.stop_le_size (size ▸ behind.le)
  obtain ⟨rest, rfl, further⟩ := behind.cancel run inside
  refine ⟨fun entry member => ?_, isBoundary_of_runs decoded (before.append run) further size⟩
  rw [← Array.mem_toList_iff, listed]
  exact List.mem_append_right _ (List.mem_append_left _ member)

theorem mem_iff_of_runs {entries : List (Nat × Located)} {start : Nat}
    (decoded : Listing.decode code = .ok listing)
    (boundary : listing.IsBoundary start) (run : Runs code start entries listing.next) :
    (pos, located) ∈ entries ↔ (pos, located) ∈ listing.entries ∧ start ≤ pos := by
  obtain ⟨front, back, listed, before, behind⟩ := (isBoundary_iff_runs decoded).1 boundary
  rw [← Array.mem_toList_iff, listed, run.unique behind, List.mem_append]
  constructor
  · intro member
    exact ⟨.inr member, (behind.mem_bounds member).2.1⟩
  · rintro ⟨member | member, above⟩
    · have bounds := (before.mem_bounds member).2.2
      have := (before.mem_bounds member).1.length_pos
      omega
    · exact member

theorem behind_le_of_lt {pos' : Nat} (decoded : Listing.decode code = .ok listing)
    (member : (pos, located) ∈ listing.entries) (boundary : listing.IsBoundary pos')
    (less : pos < pos') : pos + located.length ≤ pos' := by
  obtain ⟨front, back, listed, before, behind⟩ := (isBoundary_iff_runs decoded).1 boundary
  have member := Array.mem_toList_iff.2 member
  rw [listed] at member
  rcases List.mem_append.1 member with earlier | later
  · exact (before.mem_bounds earlier).2.2
  · have := (behind.mem_bounds later).2.1
    omega

end Decoded

end ClassSplice.Code
