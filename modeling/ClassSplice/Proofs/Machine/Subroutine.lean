import ClassSplice.Proofs.Edit.Epilogue
import ClassSplice.Proofs.Machine.Access

namespace ClassSplice.Machine

open Code (Buffer Located Opcode Reads Runs)
open Descriptor (ValueKind)
open Edit (keepBytes keepResult loadBytes slottedBytes subroutine)

section Plain

variable {Value Heap Address : Type} {size slot : Nat} {kind : ValueKind}
  (meaning : Meaning Value Heap size) {frame : Frame Nat Value Heap Address}

theorem plain_load (unknown : size ≤ slot) (fits : slot ≤ 65535) :
    meaning.plain (loadBytes kind slot) frame = meaning.load kind slot frame := by
  have known : kind.loadOpcode ≠ Opcode.ret ∧ loaded? kind.loadOpcode = some kind := by
    cases kind <;> decide
  unfold Meaning.plain
  rw [loadBytes, accessed?_load fits]
  simp only [Meaning.access, known, Nat.not_lt_of_le unknown, if_false]

theorem plain_keep (unknown : size ≤ slot) (fits : slot ≤ 65535) :
    meaning.plain (keepBytes kind slot) frame = meaning.store kind slot frame := by
  have known : kind.storeOpcode ≠ Opcode.ret ∧ loaded? kind.storeOpcode = none ∧
      stored? kind.storeOpcode = some kind := by
    cases kind <;> decide
  unfold Meaning.plain
  rw [keepBytes, accessed?_store fits]
  simp only [Meaning.access, known, Nat.not_lt_of_le unknown, if_false]

theorem plain_ret (fits : slot ≤ 65535) {pos : Address}
    (held : frame.locals slot = some (.address pos)) :
    meaning.plain (slottedBytes Opcode.ret slot) frame = .goes (.back pos) frame := by
  unfold Meaning.plain
  rw [accessed?_slotted (by decide) fits]
  simp only [Meaning.access, if_true, held]

theorem plain_null : meaning.plain [Opcode.aconstNull] frame =
    .goes .onward (frame.push (.value meaning.null)) := by
  have other : accessed? [Opcode.aconstNull] = none ∧ returned? Opcode.aconstNull = none ∧
      Opcode.aconstNull ≠ Opcode.athrow := by
    decide
  unfold Meaning.plain
  simp only [other, Meaning.ordinary, meaning.act_null, if_false]
  congr 1
  simp only [Frame.change, Frame.push, Frame.below, dite_eq_ite, ite_self]

end Plain

section Run

variable {Value Heap : Type} {size address result entry stop back slot : Nat} {kind : ValueKind}
  {returns : Option ValueKind} (meaning : Meaning Value Heap size) {code : Code}
  (frame : Frame Nat Value Heap Nat)

theorem below_keep (unknown : size ≤ slot) (word : Option (Word Value Nat)) :
    Frame.below size { frame with locals := Function.update frame.locals slot word } =
      frame.below size := by
  unfold Frame.below
  congr 1
  funext known
  have := known.2
  exact Function.update_of_ne (by omega) ..

theorem step_keep {word : Word Value Nat} {stack : List (Word Value Nat)} (unknown : size ≤ slot)
    (fits : slot ≤ 65535)
    (reads : Reads code.bytes entry ⟨(keepBytes kind slot).length, .plain (keepBytes kind slot)⟩)
    (top : frame.stack = word :: stack) (same : meaning.wordKind word = kind) :
    meaning.step code ⟨entry, frame⟩ = .on ⟨entry + (keepBytes kind slot).length,
      { frame with stack, locals := Function.update frame.locals slot (some word) }⟩ := by
  have goes : meaning.plain (keepBytes kind slot) frame = .goes .onward
      { frame with stack, locals := Function.update frame.locals slot (some word) } := by
    rw [plain_keep meaning unknown fits, Meaning.store, top]
    exact if_pos same
  exact step_goes reads goes rfl

theorem step_load {value : Value} (unknown : size ≤ slot) (fits : slot ≤ 65535)
    (reads : Reads code.bytes entry ⟨(loadBytes kind slot).length, .plain (loadBytes kind slot)⟩)
    (held : frame.locals slot = some (.value value)) (same : meaning.kind value = kind) :
    meaning.step code ⟨entry, frame⟩ =
      .on ⟨entry + (loadBytes kind slot).length, frame.push (.value value)⟩ := by
  have goes : meaning.plain (loadBytes kind slot) frame =
      .goes .onward (frame.push (.value value)) := by
    rw [plain_load meaning unknown fits, Meaning.load, held]
    exact if_pos same
  exact step_goes reads goes rfl

theorem step_null (reads : Reads code.bytes entry ⟨1, .plain [Opcode.aconstNull]⟩) :
    meaning.step code ⟨entry, frame⟩ = .on ⟨entry + 1, frame.push (.value meaning.null)⟩ :=
  step_goes reads (plain_null meaning) rfl

theorem step_ret (fits : slot ≤ 65535)
    (reads : Reads code.bytes entry
      ⟨(slottedBytes Opcode.ret slot).length, .plain (slottedBytes Opcode.ret slot)⟩)
    (held : frame.locals slot = some (.address back)) :
    meaning.step code ⟨entry, frame⟩ = .on ⟨back, frame⟩ :=
  step_goes reads (plain_ret meaning fits held) rfl

theorem leave_ne_stuck (leaves : meaning.leave (some kind) frame ≠ .stuck) :
    ∃ value stack, frame.stack = .value value :: stack ∧ meaning.kind value = kind := by
  obtain ⟨stack, locals, heap⟩ := frame
  rcases stack with _ | ⟨value | pos, stack⟩
  · exact absurd rfl leaves
  · refine ⟨value, stack, rfl, ?_⟩
    by_contra other
    exact leaves (if_neg other)
  · exact absurd rfl leaves

theorem keepResult_travels
    (run : Runs code.bytes entry
      (Code.plainsFrom entry (keepResult result returns ++ [slottedBytes Opcode.ret address])) stop)
    (unknown : size ≤ address) (apart : address < result) (fits : result ≤ 65535)
    (held : frame.locals address = some (.address back))
    (leaves : meaning.leave returns frame ≠ .stuck) :
    ∃ count frame', Travels (meaning.step code) count ⟨entry, frame⟩ ⟨back, frame'⟩ ∧
      frame'.below size = frame.below size := by
  have unknown' : size ≤ result := by omega
  have fits' : address ≤ 65535 := by omega
  have stays (word : Word Value Nat) :
      Function.update frame.locals result (some word) address = some (.address back) := by
    rw [Function.update_of_ne (by omega), held]
  cases returns with
  | none =>
      obtain _ | ⟨first, _ | ⟨second, _ | ⟨third, _⟩⟩⟩ := run
      have pushed := step_null meaning frame first
      have kept := step_keep meaning (frame.push (.value meaning.null)) unknown' fits second rfl
        meaning.kind_null
      exact ⟨3, _, .on pushed (.on kept (.one (step_ret meaning _ fits' third (stays _)))),
        below_keep frame unknown' _⟩
  | some kind =>
      obtain ⟨value, stack, top, same⟩ := leave_ne_stuck meaning frame leaves
      obtain _ | ⟨first, _ | ⟨second, _ | ⟨third, _⟩⟩⟩ := run
      have kept := step_keep meaning frame unknown' fits first top same
      have loaded := step_load meaning { frame with
        stack, locals := Function.update frame.locals result (some (.value value)) }
        unknown' fits second (Function.update_self ..) same
      refine ⟨3, _, .on kept (.on loaded (.one (step_ret meaning _ fits' third (stays _)))), ?_⟩
      have whole := below_keep frame unknown' (some (.value value))
      rwa [top] at whole

/-- The subroutine comes back, with everything as it was that the interpretation knows. -/
theorem subroutine_travels
    (run : Runs code.bytes entry (Code.plainsFrom entry (subroutine address result returns)) stop)
    (unknown : size ≤ address) (apart : address < result) (fits : result ≤ 65535)
    (leaves : meaning.leave returns frame ≠ .stuck) :
    ∃ count frame', Travels (meaning.step code) count ⟨entry, frame.push (.address back)⟩
      ⟨back, frame'⟩ ∧ frame'.below size = frame.below size := by
  obtain _ | ⟨first, rest⟩ := run
  have kept := step_keep meaning (frame.push (.address back)) unknown (by omega) first rfl rfl
  obtain ⟨count, frame', travels, same⟩ := keepResult_travels meaning { frame with
    locals := Function.update frame.locals address (some (.address back)) } rest unknown apart fits
    (Function.update_self ..) leaves
  exact ⟨count + 1, frame', .on kept travels, same.trans (below_keep frame unknown _)⟩

theorem subroutine_stuck
    (run : Runs code.bytes entry (Code.plainsFrom entry (subroutine address result returns)) stop)
    (unknown : size ≤ address) (apart : address < result) (fits : result ≤ 65535)
    (stuck : meaning.leave returns frame = .stuck) :
    Ends (meaning.step code) ⟨entry, frame.push (.address back)⟩ .stuck := by
  cases returns with
  | none => cases stuck
  | some kind =>
      obtain ⟨stack, locals, heap⟩ := frame
      have unknown' : size ≤ result := by omega
      obtain _ | ⟨first, _ | ⟨second, _ | ⟨third, _⟩⟩⟩ := run
      have kept := step_keep meaning (Frame.push ⟨stack, locals, heap⟩ (.address back)) unknown
        (by omega) first rfl rfl
      apply (Travels.one kept).ends
      rcases stack with _ | ⟨word, below⟩
      · exact .out (step_stuck second (plain_keep meaning unknown' fits))
      · by_cases same : meaning.wordKind word = kind
        · have stored := step_keep meaning ⟨word :: below, Function.update locals address
            (some (.address back)), heap⟩ unknown' fits second rfl same
          apply (Travels.one stored).ends
          -- What is kept is no value, as it could be returned otherwise.
          rcases word with value | pos
          · cases stuck.symm.trans (if_pos same)
          · refine .out (step_stuck third ((plain_load meaning unknown' fits).trans ?_))
            simp only [Meaning.load, Function.update_self]
        · exact .out (step_stuck second ((plain_keep meaning unknown' fits).trans (if_neg same)))

end Run

end ClassSplice.Machine
