import ClassSplice.Proofs.Assembler.Placement
import ClassSplice.Proofs.Code.Arrivals

namespace ClassSplice.Assembler

open Code (Buffer Instruction Listing Runs Straight)

theorem Clause.Says.eq_plain {place : String → Int} {clause : Clause} {instruction : Instruction}
    (said : clause.Says place instruction) (unnamed : clause.names = []) :
    ∃ bytes, instruction = .plain bytes := by
  cases said with
  | plain => exact ⟨_, rfl⟩
  | branch | wideBranch | tableSwitch | lookupSwitch => cases unnamed

section Trace

variable {last : Pool} {start state : Assembly} {sources : List Statement}
  {groups : List (List Piece)} {limit : Int}

theorem Trace.straight (trace : Trace last start sources groups state) (sound : last.Sound)
    (unlabelled : ∀ source ∈ sources, source.labels = [])
    (unnamed : ∀ source ∈ sources, source.clause.names = [])
    (low : start.buffer.depth ≤ start.buffer.maxStack) (place : String → Nat)
    (limited : state.buffer.maxStack ≤ limit) :
    Straight last limit start.buffer.depth (groups.flatten.map (Piece.entry place))
      state.buffer.depth := by
  induction trace with
  | done => exact .nil (low.trans limited)
  | @step start between state pool source pieces sources groups treats extended rest ih =>
      have raised : start.buffer.maxStack ≤ state.buffer.maxStack :=
        (treats.advances.trans rest.advances).maxStack
      have further := ih (fun other later => unlabelled other (List.mem_cons_of_mem _ later))
        fun other later => unnamed other (List.mem_cons_of_mem _ later)
      have unnamed := unnamed source List.mem_cons_self
      obtain ⟨lands, acts⟩ := treats
      rw [unlabelled source List.mem_cons_self] at lands
      cases lands
      generalize source.clause = clause at acts unnamed
      cases acts with
      | silent => exact further low limited
      | handler => cases unnamed
      | @writes _ piece _ writes =>
          obtain ⟨effect, emits, _⟩ := writes
          obtain ⟨bytes, filled⟩ := (emits.said fun name => place name).eq_plain unnamed
          have plain := Piece.eq_plain_of_filled filled
          have measured := emits.measured last extended sound
          have depth := emits.grows.depth
          rw [plain] at measured depth
          have further := further (emits.grows.high low) limited
          rw [depth] at further
          show Straight _ _ _ ((piece.pos, ⟨_, piece.filled fun name => place name⟩) :: _) _
          rw [filled]
          have below : start.buffer.depth ≤ limit := by
            have : start.buffer.depth ≤ (start.buffer.maxStack : Int) := low
            omega
          refine .cons below measured ?_
          simpa [Instruction.returnWidth] using further

end Trace

section Assembled

variable {source : String} {scope scope' : Scope} {buffer buffer' : Buffer} {pool pool' : Pool}
  {sources : List Statement}

theorem assemble_straight (empty : buffer.bytes = #[]) (bare : buffer.handlers = [])
    (low : buffer.depth ≤ buffer.maxStack) (sound : pool.Sound)
    (split : statements source = .ok sources) (unlabelled : ∀ source ∈ sources, source.labels = [])
    (assembled : outcome (assemble source scope buffer) pool = (.ok (scope', buffer'), pool'))
    (small : buffer'.pc ≤ 2147483647) :
    ∃ snippet, Listing.decode buffer'.bytes = .ok snippet ∧
      Runs buffer'.bytes 0 snippet.entries.toList buffer'.pc ∧
      Straight pool' buffer'.maxStack buffer.depth snippet.entries.toList buffer'.depth ∧
      buffer'.handlers = [] := by
  have extended := appends_assemble source scope buffer pool
  rw [assembled] at extended
  obtain ⟨sources', groups, traced, split', completes⟩ := assemble_completes assembled
  cases split.symm.trans split'
  obtain ⟨added, same, rendered⟩ := completes.rendered
  have unwritten (name : String) : ¬ Written sources name := by
    rintro ⟨source, member, among⟩
    rw [unlabelled source member] at among
    cases among
  have unnamed : ∀ source ∈ sources, source.clause.names = [] := fun source member =>
    List.eq_nil_iff_forall_not_mem.2 fun name named =>
      unwritten name (rendered.named source member name named)
  have start : buffer.pc = 0 := by rw [Buffer.pc, empty]; rfl
  have runs := rendered.runs small
  rw [start] at runs
  refine ⟨_, Code.decode_of_runs runs, runs, ?_, ?_⟩
  · rw [completes.depth, completes.maxStack]
    exact completes.trace.straight (extended.sound sound) unlabelled unnamed low traced.place le_rfl
  · have none : sources.filterMap (·.clause.handler?) = [] := by
      refine List.filterMap_eq_nil_iff.2 fun source member => Option.eq_none_iff_forall_ne_some.2 ?_
      intro names declared
      have named := Clause.mem_names_of_handler declared
      rw [unnamed source member] at named
      cases named
    have handlers := rendered.handlers
    rw [none] at handlers
    rw [same, bare, List.forall₂_nil_left_iff.1 handlers]
    rfl

end Assembled

end ClassSplice.Assembler
