import ClassSplice.Code.Cursor
import ClassSplice.Proofs.Layout.Emission

namespace ClassSplice.Code

def Listing.hasSwitch (listing : Listing) : Bool :=
  listing.entries.any fun entry => entry.2.instruction.isSwitch

/-- The instructions of a body that is followed by `padding` bytes of nothing and then by other code. -/
def Listing.followedBy (body added : Listing) (padding : Nat) : Listing where
  entries := body.entries ++ (nopsFrom body.next padding).toArray ++
    added.entries.map (shiftedBy (body.next + padding))
  next := body.next + padding + added.next

section Switches

variable {code : Array UInt8} {pos stop : Nat} {entries : List (Nat × Located)}

theorem Runs.any_startsSwitch (run : Runs code pos entries stop) :
    (entries.map Prod.fst).any (startsSwitch code) =
      entries.any fun entry => entry.2.instruction.isSwitch := by
  induction run with
  | done => rfl
  | step reads rest ih => rw [List.map_cons, List.any_cons, List.any_cons, reads.startsSwitch_eq, ih]

theorem containsSwitch_of_decode {listing : Listing} (decoded : Listing.decode code = .ok listing) :
    containsSwitch code = .ok listing.hasSwitch := by
  obtain ⟨run, ended⟩ := decode_eq_ok.1 decoded
  have beyond : startsSwitch code listing.next = false := by
    rw [startsSwitch, Array.getElem?_eq_none (Nat.le_of_eq ended.symm)]
    rfl
  rw [containsSwitch, containsSwitchFrom_eq run.tiles (.ended (Nat.le_of_eq ended.symm)),
    run.any_startsSwitch, Array.any_toList, ← Listing.hasSwitch, beyond, Bool.or_false]
  cases listing.hasSwitch <;> rfl

end Switches

namespace Cursor

/-- Code without switches starts where the body ends, and other code at the next multiple of four. -/
structure Starts (length : Nat) (added : Listing) (start : Nat) : Prop where
  unaligned : added.hasSwitch = false → start = length
  aligned : added.hasSwitch = true → 4 ∣ start
  behind : length ≤ start
  near : start < length + 4

theorem appendOffset_of_decode {code : Array UInt8} {added : Listing}
    (decoded : Listing.decode code = .ok added) (length : Nat) :
    ∃ start, appendOffset length code = .ok start ∧ Starts length added start := by
  rw [appendOffset, containsSwitch_of_decode decoded, ok_bind]
  split
  · rename_i multiple
    exact ⟨length, rfl, fun _ => rfl, fun _ => Nat.dvd_of_mod_eq_zero multiple, by omega, by omega⟩
  · split
    · rename_i switches
      refine ⟨_, rfl, fun straight => ?_, fun _ => by omega, by omega, by omega⟩
      rw [switches] at straight
      cases straight
    · rename_i straight
      exact ⟨length, rfl, fun _ => rfl, fun switches => absurd switches straight, by omega, by omega⟩

def attach (cursor : Cursor) (bytes : Array UInt8) : Cursor :=
  { cursor with code.bytes := cursor.code.bytes ++ bytes }

structure Appended (cursor : Cursor) (code : Array UInt8) (body added : Listing) (start : Nat)
    (next : Cursor) : Prop where
  next_eq : next =
    (cursor.attach (Array.replicate (start - cursor.code.bytes.size) Opcode.nop)).attach code
  decoded : Listing.decode next.code.bytes =
    .ok (body.followedBy added (start - cursor.code.bytes.size))
  starts : instructionStarts next.code.bytes = .ok (body.entries.map Prod.fst ++
    Array.range' cursor.code.bytes.size (start - cursor.code.bytes.size) ++
    added.entries.map fun entry => start + entry.1)

section Append

variable {cursor : Cursor} {code : Array UInt8} {body added : Listing} {start : Nat}

theorem map_fst_nopsFrom (pos count : Nat) :
    (nopsFrom pos count).map Prod.fst = List.range' pos count := by
  induction count generalizing pos with
  | zero => rfl
  | succ count ih => rw [nopsFrom, List.map_cons, ih, List.range'_succ]

theorem decode_followedBy {bytes : Array UInt8} {padding : Nat}
    (decodedBody : Listing.decode bytes = .ok body) (decoded : Listing.decode code = .ok added)
    (aligned : added.hasSwitch = true → 4 ∣ bytes.size + padding) :
    Listing.decode (bytes ++ Array.replicate padding Opcode.nop ++ code) =
      .ok (body.followedBy added padding) := by
  obtain ⟨front, ended⟩ := decode_eq_ok.1 decodedBody
  obtain ⟨back, ended'⟩ := decode_eq_ok.1 decoded
  rw [← ended] at aligned
  have padded : Holds (bytes ++ Array.replicate padding Opcode.nop ++ code) body.next
      (List.replicate padding Opcode.nop) := by
    have held := holds_append_size bytes (Array.replicate padding Opcode.nop)
    rw [Array.toList_replicate, ← ended] at held
    exact held.append_right
  have own : Holds (bytes ++ Array.replicate padding Opcode.nop ++ code) (body.next + padding)
      code.toList := by
    have held := holds_append_size (bytes ++ Array.replicate padding Opcode.nop) code
    rwa [Array.size_append, Array.size_replicate, ← ended] at held
  have shifted := back.shift (fun entry member switch =>
    aligned (Array.any_eq_true'.2 ⟨entry, Array.mem_toList_iff.1 member, switch⟩)) own
  rw [Nat.add_zero] at shifted
  have all := ((front.append_right _).append_right code).append (runs_nopsFrom padded)
  refine decode_eq_ok.2 ⟨?_, ?_⟩
  · simpa [Listing.followedBy] using all.append shifted
  · simp only [Listing.followedBy, ended, ended', Array.size_append, Array.size_replicate]

theorem Starts.appended (starts : Starts cursor.code.bytes.size added start)
    (decodedBody : Listing.decode cursor.code.bytes = .ok body)
    (decoded : Listing.decode code = .ok added) :
    Appended cursor code body added start
      ((cursor.attach (Array.replicate (start - cursor.code.bytes.size) Opcode.nop)).attach code) := by
  have behind := starts.behind
  have reached : cursor.code.bytes.size + (start - cursor.code.bytes.size) = start := by omega
  have whole : Listing.decode ((cursor.attach
      (Array.replicate (start - cursor.code.bytes.size) Opcode.nop)).attach code).code.bytes =
        .ok (body.followedBy added (start - cursor.code.bytes.size)) := by
    refine decode_followedBy decodedBody decoded fun switches => ?_
    rw [reached]
    exact starts.aligned switches
  refine ⟨rfl, whole, ?_⟩
  have ended := (decode_eq_ok.1 decodedBody).2
  rw [instructionStarts_of_decode whole, Listing.followedBy, ended, reached]
  simp [shiftedBy, map_fst_nopsFrom, ← Array.toList_inj]

def addBehind (code : Array UInt8) : ExceptT Error (StateM Cursor) Nat := do
  let length := (← get).code.bytes.size
  let start ← appendOffset length code
  if maxLength < start + code.size then throw (.codeTooLong (start + code.size))
  modify fun cursor => cursor.attach (Array.replicate (start - length) Opcode.nop)
  modify fun cursor => cursor.attach code
  return start

theorem addBehind_atomic (cursor : Cursor) (code : Array UInt8) :
    outcome (addBehind code) cursor = match cursor.append code with
      | .ok (start, next) => (.ok start, next)
      | .error error => (.error error, cursor) := by
  simp only [addBehind, append, outcome_bind, outcome_get, outcome_lift]
  rcases appendOffset cursor.code.bytes.size code with error | start
  · rfl
  simp only [ok_bind]
  split
  · rfl
  · rfl

/-- Code that decodes is added behind a body that decodes unless the body becomes too long, which is
refused and changes nothing. Nothing that stands in the body or in the code is read otherwise
afterwards, but for the offset that the targets of the code count from. -/
theorem append_outcome (decodedBody : Listing.decode cursor.code.bytes = .ok body)
    (decoded : Listing.decode code = .ok added) :
    ∃ start, Starts cursor.code.bytes.size added start ∧
      (start + code.size ≤ maxLength → ∃ next, cursor.append code = .ok (start, next) ∧
        outcome (addBehind code) cursor = (.ok start, next) ∧
        Appended cursor code body added start next) ∧
      (maxLength < start + code.size →
        cursor.append code = .error (.codeTooLong (start + code.size)) ∧
        outcome (addBehind code) cursor = (.error (.codeTooLong (start + code.size)), cursor)) := by
  obtain ⟨start, found, starts⟩ := appendOffset_of_decode decoded cursor.code.bytes.size
  refine ⟨start, starts, fun fits => ?_, fun long => ?_⟩
  · have added : cursor.append code = .ok (start,
        (cursor.attach (Array.replicate (start - cursor.code.bytes.size) Opcode.nop)).attach code) := by
      rw [append, found, ok_bind, if_neg (Nat.not_lt_of_le fits)]
      rfl
    refine ⟨_, added, ?_, starts.appended decodedBody decoded⟩
    rw [addBehind_atomic, added]
  · have refused : cursor.append code = .error (.codeTooLong (start + code.size)) := by
      rw [append, found, ok_bind, if_pos long]
    rw [addBehind_atomic, refused]
    exact ⟨rfl, rfl⟩

end Append

def zeroBody : Cursor :=
  start ⟨1, 0, #[0x03, 0xac], [], []⟩

def switchCode : Array UInt8 :=
  #[0xab, 0, 0, 0, 0, 0, 0, 12, 0, 0, 0, 0, 0]

set_option maxRecDepth 4000 in
theorem append_outcome_switch :
    ∃ next, zeroBody.append switchCode = .ok (4, next) ∧
      Listing.decode next.code.bytes = .ok ⟨#[(0, ⟨1, .plain [0x03]⟩), (1, ⟨1, .plain [0xac]⟩),
        (2, ⟨1, .plain [0]⟩), (3, ⟨1, .plain [0]⟩), (4, ⟨12, .lookupSwitch 16 []⟩),
        (16, ⟨1, .plain [0]⟩)], 17⟩ := by
  have decodedBody : Listing.decode zeroBody.code.bytes =
      .ok ⟨#[(0, ⟨1, .plain [0x03]⟩), (1, ⟨1, .plain [0xac]⟩)], 2⟩ := by cbv
  have decoded : Listing.decode switchCode =
      .ok ⟨#[(0, ⟨12, .lookupSwitch 12 []⟩), (12, ⟨1, .plain [0]⟩)], 13⟩ := by cbv
  obtain ⟨start, starts, fits, _⟩ := append_outcome decodedBody decoded
  have size : zeroBody.code.bytes.size = 2 := rfl
  rw [size] at starts
  obtain rfl : start = 4 := by
    have := starts.aligned (by simp [Listing.hasSwitch, Instruction.isSwitch])
    have := starts.behind
    have := starts.near
    omega
  obtain ⟨next, done, _, appended⟩ := fits (by decide)
  refine ⟨next, done, appended.decoded.trans ?_⟩
  rw [size]
  simp [Listing.followedBy, nopsFrom, shiftedBy, Instruction.shift, Opcode.nop]

end Cursor
end ClassSplice.Code
