import ClassSplice.Proofs.Layout.Simulation

namespace ClassSplice.Code

/-- May control run on behind the instruction? Behind a call it does once the subroutine returns. -/
def Instruction.fallsThrough : Instruction → Bool
  | plain bytes => runsOn bytes
  | branch opcode _ | wideBranch opcode _ => !opcode.endsFlow
  | tableSwitch .. | lookupSwitch .. => false

def Located.successors (pos : Nat) (located : Located) : List Int :=
  (if located.instruction.fallsThrough then [(pos + located.length : Int)] else []) ++
    located.instruction.targets

/-- Offsets that control may come to, if an exception may be thrown anywhere. -/
inductive Reached (code : Code) : Nat → Prop
  | first : Reached code 0
  | handler {handler : Handler} (member : handler ∈ code.handlers) :
      Reached code handler.target.toNat
  | next {pos next : Nat} {located : Located} (reached : Reached code pos)
      (reads : Reads code.bytes pos located) (follows : (next : Int) ∈ located.successors pos) :
      Reached code next

/-- Wherever control comes to, it goes on inside the code. -/
def StaysInside (code : Code) : Prop :=
  ∀ pos located, Reached code pos → Reads code.bytes pos located →
    ∀ next ∈ located.successors pos, 0 ≤ next ∧ next < code.bytes.size

theorem Opcode.not_endsFlow_of_isConditional {opcode : Opcode}
    (conditional : opcode.isConditional = true) : opcode.endsFlow = false := by
  have := forall_of_fin (fun opcode => !opcode.isConditional || !opcode.endsFlow)
    (by decide +kernel) opcode
  simpa [conditional] using this

theorem Instruction.fallsThrough_of_onward {Value : Type} {meaning : Interpretation Value} {value : Value}
    {instruction : Instruction} {behind goal : Int}
    (goes : instruction.successor meaning value behind = some (.onward, goal)) :
    instruction.fallsThrough = true := by
  cases instruction with
  | plain bytes =>
      simp only [successor] at goes
      split at goes
      · assumption
      · cases goes
  | branch opcode target =>
      simp only [successor, Bool.and_eq_true] at goes
      split at goes
      · rename_i untaken
        simp [fallsThrough, Opcode.not_endsFlow_of_isConditional untaken.1]
      · cases goes
  | wideBranch => cases goes
  | tableSwitch =>
      simp only [successor] at goes
      split at goes <;> cases goes
  | lookupSwitch => cases goes

theorem mem_successors {Value : Type} {meaning : Interpretation Value} {value : Value} {pos : Nat}
    {located : Located} {edge : Edge} {next : Int}
    (goes : located.instruction.successor meaning value (pos + located.length) = some (edge, next)) :
    next ∈ located.successors pos := by
  unfold Located.successors
  rcases Instruction.successor_mem goes with ⟨rfl, rfl⟩ | named
  · rw [if_pos (Instruction.fallsThrough_of_onward goes)]
    exact List.mem_append_left _ (List.mem_singleton_self _)
  · exact List.mem_append_right _ named

theorem Reached.steps {Value : Type} {meaning : Interpretation Value} {value : Value} {code : Code}
    {pos next : Nat} {edge : Edge} (reached : Reached code pos)
    (steps : Steps meaning code.bytes value pos edge next) : Reached code next := by
  obtain ⟨located, reads, goes⟩ := steps
  exact reached.next reads (mem_successors goes)

section Inside

variable {code : Code} {listing : Listing}

theorem mem_of_reads {bytes : Array UInt8} {pos : Nat} {located : Located}
    (decoded : Listing.decode bytes = .ok listing) (boundary : listing.IsBoundary pos)
    (reads : Reads bytes pos located) : (pos, located) ∈ listing.entries := by
  obtain ⟨_, size⟩ := decode_eq_ok.1 decoded
  rcases boundary with rfl | ⟨located', member⟩
  · have := reads.length_pos
    have := reads.le_size
    omega
  · cases reads.unique (reads_of_mem decoded member)
    exact member

theorem Reached.isBoundary {pos : Nat} (reached : Reached code pos)
    (decoded : Listing.decode code.bytes = .ok listing) (aimed : listing.Aimed)
    (handled : ∀ handler ∈ code.handlers, listing.IsBoundary handler.target.toNat) :
    listing.IsBoundary pos := by
  induction reached with
  | first => exact isBoundary_zero decoded
  | handler member => exact handled _ member
  | @next pos next located reached reads follows ih =>
      have member := mem_of_reads decoded ih reads
      rcases List.mem_append.1 follows with behind | target
      · split at behind
        · have same : next = pos + located.length := by
            have := List.mem_singleton.1 behind
            omega
          exact same ▸ isBoundary_behind decoded member
        · cases behind
      · obtain ⟨goal, same, boundary⟩ := aimed _ member _ target
        exact Int.natCast_inj.1 same ▸ boundary

theorem staysInside_iff (decoded : Listing.decode code.bytes = .ok listing) (aimed : listing.Aimed)
    (handled : ∀ handler ∈ code.handlers, listing.IsBoundary handler.target.toNat)
    (ended : ∀ pos located, (pos, located) ∈ listing.entries →
      pos + located.length = code.bytes.size → located.instruction.fallsThrough = false) :
    StaysInside code ↔ ∀ pos located, Reached code pos → Reads code.bytes pos located →
      (code.bytes.size : Int) ∉ located.instruction.targets := by
  constructor
  · intro stays pos located reached reads target
    have := (stays pos located reached reads _ (List.mem_append_right _ target)).2
    exact Int.lt_irrefl _ this
  · intro never pos located reached reads next follows
    have member := mem_of_reads decoded (reached.isBoundary decoded aimed handled) reads
    rcases List.mem_append.1 follows with behind | target
    · split at behind
      · rename_i falls
        rw [List.mem_singleton.1 behind]
        have inside := reads.le_size
        have further : pos + located.length ≠ code.bytes.size := by
          intro last
          rw [ended pos located member last] at falls
          cases falls
        omega
      · cases behind
    · obtain ⟨goal, rfl, boundary⟩ := aimed _ member _ target
      have inside := boundary.le_next decoded
      have size := (decode_eq_ok.1 decoded).2
      have further : goal ≠ code.bytes.size := by
        rintro rfl
        exact never pos located reached reads target
      omega

end Inside

end ClassSplice.Code
