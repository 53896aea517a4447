import ClassSplice.Proofs.Code.Reach
import ClassSplice.Proofs.Edit.Operation
import ClassSplice.Proofs.Edit.Sound

/-!
Verification frames, which edits drop from the bodies that they write. Where frames are not optional, an
edit that succeeds writes a body without branches and without handlers. Such a body needs no frames just if
all of its instructions can be reached (`runBy_frameless_iff`): edits do not look for code behind an
instruction that does not run on.
-/

namespace ClassSplice

open Code (Handler Instruction Listing Located Reached Reads Runs)

namespace Code

/-- Offsets of a body that need a verification frame: where control joins, and what it does not run into. -/
inductive NeedsFrame (code : Code) (listing : Listing) : Nat → Prop
  | target {pos place : Nat} {located : Located} (member : (pos, located) ∈ listing.entries)
      (named : (place : Int) ∈ located.instruction.targets) : NeedsFrame code listing place
  | handler {handler : Handler} (member : handler ∈ code.handlers) :
      NeedsFrame code listing handler.target.toNat
  | behind {pos : Nat} {located : Located} (member : (pos, located) ∈ listing.entries)
      (ends : located.instruction.fallsThrough = false)
      (inside : pos + located.length < code.bytes.size) : NeedsFrame code listing (pos + located.length)

section Straight

variable {code : Code} {listing : Listing}

theorem reached_of_runs {start stop : Nat} {entries : List (Nat × Located)}
    (run : Runs code.bytes start entries stop) (reached : Reached code start)
    (onward : ∀ pos located, (pos, located) ∈ entries → pos + located.length < code.bytes.size →
      located.instruction.fallsThrough = true) :
    ∀ pos located, (pos, located) ∈ entries → Reached code pos := by
  induction run with
  | done => exact fun _ _ member => nomatch member
  | @step start stop located entries reads rest ih =>
      intro pos found member
      rcases List.mem_cons.1 member with same | later
      · cases same
        exact reached
      · -- There is code behind the first instruction, so that it has to run on.
        obtain ⟨reads', from_here, _⟩ := rest.mem_bounds later
        have further := reads'.length_pos
        have inside := reads'.le_size
        have falls := onward start located List.mem_cons_self (by omega)
        have next : Reached code (start + located.length) := by
          refine reached.next reads ?_
          unfold Located.successors
          rw [if_pos falls]
          exact List.mem_append_left _ (List.mem_singleton.2 (by omega))
        exact ih next (fun pos located member => onward pos located (List.mem_cons_of_mem _ member))
          pos found later

theorem Reached.runs_on {pos : Nat} {located : Located}
    (decoded : Listing.decode code.bytes = .ok listing)
    (straight : ∀ entry ∈ listing.entries, entry.2.instruction.targets = [])
    (unhandled : code.handlers = []) (member : (pos, located) ∈ listing.entries)
    (reached : Reached code (pos + located.length)) : located.instruction.fallsThrough = true := by
  have length := (reads_of_mem decoded member).length_pos
  generalize goal : pos + located.length = next at reached
  cases reached with
  | first => omega
  | handler among =>
      rw [unhandled] at among
      cases among
  | @next pos' _ located' reached reads follows =>
      have aimed : listing.Aimed := by
        intro entry among target named
        rw [straight entry among] at named
        cases named
      have handled : ∀ handler ∈ code.handlers, listing.IsBoundary handler.target.toNat := by
        rw [unhandled]
        exact fun _ among => nomatch among
      have member' := mem_of_reads decoded (reached.isBoundary decoded aimed handled) reads
      unfold Located.successors at follows
      rw [straight _ member', List.append_nil] at follows
      split at follows
      · rename_i falls
        have same := List.mem_singleton.1 follows
        -- Instructions that end at one offset are one instruction.
        have length' := reads.length_pos
        obtain less | rfl | more := Nat.lt_trichotomy pos pos'
        · have := behind_le_of_lt decoded member (.inr ⟨_, member'⟩) less
          omega
        · rwa [located_unique decoded member member']
        · have := behind_le_of_lt decoded member' (.inr ⟨_, member⟩) more
          omega
      · cases follows

/-- A body without branches and handlers needs no frames just if all of it can be reached. -/
theorem frameless_iff_reached (decoded : Listing.decode code.bytes = .ok listing)
    (straight : ∀ entry ∈ listing.entries, entry.2.instruction.targets = [])
    (unhandled : code.handlers = []) :
    (∀ pos, ¬ NeedsFrame code listing pos) ↔
      ∀ pos located, (pos, located) ∈ listing.entries → Reached code pos := by
  obtain ⟨run, size⟩ := decode_eq_ok.1 decoded
  constructor
  · intro none pos located member
    refine reached_of_runs run .first (fun pos located member inside => ?_) pos located
      (Array.mem_toList_iff.2 member)
    refine Bool.of_not_eq_false fun ends => ?_
    exact none _ (.behind (Array.mem_toList_iff.1 member) ends inside)
  · intro all pos needs
    cases needs with
    | target member named =>
        rw [straight _ member] at named
        cases named
    | handler member =>
        rw [unhandled] at member
        cases member
    | @behind pos located member ends inside =>
        rcases isBoundary_behind decoded member with last | ⟨next, among⟩
        · omega
        · have falls := (all _ next among).runs_on decoded straight unhandled member
          rw [ends] at falls
          cases falls

end Straight
end Code

namespace Edit

def Looks {α : Type} (step : EditM α) : Prop :=
  ∀ (before after : Editor) (value : α), outcome step before = (.ok value, after) → before = after

def Writes (index : Nat) (edit : EditM Unit) : Prop :=
  ∀ before after : Editor, outcome edit before = (.ok (), after) →
    ∃ built pool, Written before after index built pool

section Writing

variable {α : Type} {index : Nat}

theorem Looks.writes {step : EditM α} {rest : α → EditM Unit} (looks : Looks step)
    (each : ∀ value, Writes index (rest value)) : Writes index (step >>= rest) := by
  intro before after done
  obtain ⟨value, middle, ran, done⟩ := outcome_bind_eq_ok.1 done
  obtain rfl := looks _ _ _ ran
  exact each value _ _ done

theorem looks_contextAt : Looks (contextAt index) :=
  fun _ _ _ => outcome_contextAt_same

theorem looks_isConstructor : Looks (isConstructor index) :=
  fun _ _ _ => outcome_isConstructor_same

theorem looks_methodAt : Looks (methodAt index) :=
  fun _ _ _ done => (outcome_methodAt_eq_ok.1 done).2

theorem looks_get : Looks (get : EditM Editor) :=
  fun _ _ _ done => (outcome_get_eq_ok.1 done).2

theorem looks_require {result : Except Error α} : Looks (require result) :=
  fun _ _ _ done => (outcome_require_eq_ok.1 done).2

theorem writes_throw (fault : Fault) : Writes index (throw fault) :=
  fun _ _ done => absurd done outcome_throw_ne_ok

theorem writes_patchBody (edit : Code → PoolEditM Code) : Writes index (patchBody index edit) := by
  intro before after done
  obtain ⟨code, built, pool, _, replaced⟩ := outcome_patchBody_eq_ok.1 done
  exact ⟨built, pool, replaced.written⟩

theorem Change.writes (compiler : Compiler) (change : Change) :
    Writes index (change.runBy compiler index) := by
  cases change with
  | before source => exact looks_contextAt.writes fun _ => writes_patchBody _
  | after source asFinally =>
      refine looks_contextAt.writes fun _ => looks_isConstructor.writes fun _ => ?_
      refine looks_methodAt.writes fun _ => looks_get.writes fun _ => looks_require.writes fun _ => ?_
      exact writes_patchBody _
  | catching source exceptionType name =>
      refine looks_contextAt.writes fun _ => looks_isConstructor.writes fun _ => ?_
      split
      · exact writes_throw _
      · exact writes_patchBody _
  | anew source =>
      intro before after done
      obtain ⟨_, _, _, built, pool, _, _, _, _, written⟩ := setBody_built done
      exact ⟨built, pool, written⟩

end Writing

/-- Where frames are not optional, a change of a body that succeeds writes a body, and what it writes has no
branches and no handlers. This needs no frames just if all of it can be reached. -/
theorem runBy_frameless_iff {compiler : Compiler} {editor editor' : Editor} {index : Nat}
    {change : Change} (modern : 50 < editor.file.version.major)
    (done : outcome (change.runBy compiler index) editor = (.ok (), editor')) :
    (∃ built pool, Written editor editor' index built pool) ∧
      ∀ built pool, Written editor editor' index built pool →
        ∃ listing, Listing.decode built.bytes = .ok listing ∧ built.handlers = [] ∧
          (∀ entry ∈ listing.entries, entry.2.instruction.targets = []) ∧
          ((∀ pos, ¬ Code.NeedsFrame built listing pos) ↔
            ∀ pos located, (pos, located) ∈ listing.entries → Reached built pos) := by
  refine ⟨change.writes compiler _ _ done, fun built pool written => ?_⟩
  obtain ⟨listing, decoded, _⟩ := checkBody_sound written.sound
  have frames : editor.file.version.framesOptional = false :=
    decide_eq_false (UInt16.not_le.2 modern)
  obtain ⟨unhandled, plain⟩ := checkBody_straight written.sound frames decoded
  have straight : ∀ entry ∈ listing.entries, entry.2.instruction.targets = [] :=
    fun entry member => Instruction.targets_eq_nil (plain entry member)
  exact ⟨listing, decoded, unhandled, straight, Code.frameless_iff_reached decoded straight unhandled⟩

def modernClass (body : Code) : Editor :=
  { smallClass body with file := { (smallClass body).file with version := ⟨52, 0⟩ } }

theorem contextAt_modernClass (body : Code) :
    outcome (contextAt 0) (modernClass body) = (.ok ⟨"C", ⟨[], none⟩, true⟩, modernClass body) := by
  obtain ⟨indices, same⟩ := smallPool_eq
  simp only [modernClass, smallClass, same]
  cbv

set_option maxRecDepth 4000 in
theorem exists_setBody_modernClass (body : Code) :
    ∃ editor', outcome (setBody assemble 0 "nop") (modernClass body) = (.ok (), editor') := by
  have falls : fallsThrough #[0x00] = .ok true := by cbv
  have sound : checkBody ⟨0, 0, #[0x00, 0xb1], [], []⟩ ⟨52, 0⟩ = .ok () := by cbv
  obtain ⟨method', pool', stored⟩ := exists_setCode ⟨0x9, 3, 4, [⟨5, body.write⟩]⟩
    ⟨0, 0, #[0x00, 0xb1], [], []⟩ (show smallPool.hasRoomFor _ = true from rfl)
  exact ⟨_, outcome_setBody rfl (contextAt_modernClass body) rfl (compileWith_nop (Int.le_refl 0)) falls
    rfl sound stored⟩

set_option maxRecDepth 4000 in
theorem runBy_frameless_iff_nop :
    ∃ editor' built pool listing, outcome ((Change.anew "nop").runBy assemble 0)
        (modernClass Code.Cursor.loopBody.code) = (.ok (), editor') ∧
      Written (modernClass Code.Cursor.loopBody.code) editor' 0 built pool ∧
      Listing.decode built.bytes = .ok listing ∧ ∀ pos, ¬ Code.NeedsFrame built listing pos := by
  obtain ⟨editor', done⟩ := exists_setBody_modernClass Code.Cursor.loopBody.code
  obtain ⟨context, built, pool, known, made, written⟩ := setBody_written done
  cases known.symm.trans (contextAt_modernClass _)
  cases made.symm.trans newBody_nop
  have done : outcome ((Change.anew "nop").runBy assemble 0) (modernClass Code.Cursor.loopBody.code) =
      (.ok (), editor') := done
  obtain ⟨_, each⟩ := runBy_frameless_iff (by decide) done
  obtain ⟨listing, decoded, _, _, exactly⟩ := each _ _ written
  refine ⟨editor', _, _, listing, done, written, decoded, exactly.2 ?_⟩
  have listed : Listing.decode #[0x00, 0xb1] =
      .ok ⟨#[(0, ⟨1, .plain [0x00]⟩), (1, ⟨1, .plain [0xb1]⟩)], 2⟩ := by cbv
  cases decoded.symm.trans listed
  intro pos located member
  simp only [List.mem_toArray, List.mem_cons, Prod.mk.injEq, List.not_mem_nil, or_false] at member
  obtain ⟨rfl, rfl⟩ | ⟨rfl, rfl⟩ := member
  · exact .first
  · have reads : Reads #[0x00, 0xb1] 0 ⟨1, .plain [0x00]⟩ := Code.reads_of_mem decoded (by simp)
    exact .next .first reads (by decide)

-- Code behind a return is accepted, though it needs a frame.
set_option maxRecDepth 4000 in
example : checkBody ⟨0, 0, #[0xb1, 0x00, 0xb1], [], []⟩ ⟨51, 0⟩ = .ok () := by cbv

end Edit
end ClassSplice
