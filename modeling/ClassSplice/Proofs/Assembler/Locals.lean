import ClassSplice.Proofs.Assembler.Placement

namespace ClassSplice.Assembler

open Code (Buffer)

theorem Fits.mono {instruction : Code.Instruction} {limit more : Nat} (fits : Fits instruction limit)
    (le : limit ≤ more) : Fits instruction more :=
  fun bytes opcode slot plain accessed => (fits bytes opcode slot plain accessed).trans le

theorem Fits.filled {piece : Piece} {limit : Nat} (fits : Fits piece.instruction limit)
    (place : String → Int) : Fits (piece.filled place) limit :=
  fun bytes opcode slot plain => fits bytes opcode slot (Piece.eq_plain_of_filled plain)

theorem Trace.fits {last : Pool} {start state : Assembly} {sources : List Statement}
    {groups : List (List Piece)} (trace : Trace last start sources groups state) :
    List.Forall₂ (fun source piece => source.clause.isCompact = false →
      Fits piece.instruction state.buffer.maxLocals)
      (sources.filter Statement.isInstruction) groups.flatten := by
  induction trace with
  | done => exact .nil
  | step treats _ rest ih =>
      obtain ⟨lands, acts⟩ := treats
      generalize known : Statement.clause _ = clause at acts
      cases acts with
      | silent | handler =>
          rwa [List.filter_cons_of_neg (by simp [Statement.isInstruction, known, Clause.isInstruction])]
      | writes writes =>
          obtain ⟨effect, emits, _⟩ := writes
          have isInstruction := (emits.said fun _ => 0).isInstruction
          rw [List.filter_cons_of_pos (by rw [Statement.isInstruction, known, isInstruction])]
          refine .cons (fun operand => ?_) ih
          rw [known] at operand
          exact (emits.fits operand).mono rest.advances.maxLocals

section Assembled

variable {source : String} {scope scope' : Scope} {buffer buffer' : Buffer} {pool pool' : Pool}

/-- Every local variable that an instruction accesses counts as in use, unless its statement is the
mnemonic of an opcode that holds the slot. -/
theorem assemble_fits
    (assembled : outcome (assemble source scope buffer) pool = (.ok (scope', buffer'), pool')) :
    ∃ sources place entries added, statements source = .ok sources ∧
      buffer'.handlers = buffer.handlers ++ added ∧
      Rendered buffer.pc sources place entries buffer' added ∧
      List.Forall₂ (fun source entry => source.clause.isCompact = false →
        Fits entry.2.instruction buffer'.maxLocals)
        (sources.filter Statement.isInstruction) entries := by
  obtain ⟨sources, groups, traced, split, completes⟩ := assemble_completes assembled
  obtain ⟨added, same, rendered⟩ := completes.rendered
  refine ⟨sources, traced.place, _, added, split, same, rendered, ?_⟩
  rw [List.forall₂_map_right_iff, completes.maxLocals]
  exact completes.trace.fits.imp fun source piece fits operand => (fits operand).filled _

theorem assemble_fits_iinc : ∃ buffer' place entries,
    Rendered 0 [⟨1, [.word "iinc", .word "7", .word "1"]⟩] place entries buffer' buffer'.handlers ∧
      buffer'.bytes = #[0x84, 7, 1] ∧ ∀ entry ∈ entries, Fits entry.2.instruction 8 := by
  have split : statements "iinc 7 1" = .ok [⟨1, [.word "iinc", .word "7", .word "1"]⟩] := by cbv
  have operand : (Statement.mk 1 [.word "iinc", .word "7", .word "1"]).clause.isCompact = false := by
    decide +kernel
  have made : assembled? [⟨1, [.word "iinc", .word "7", .word "1"]⟩] [] (.empty 1 0) .empty =
      some (⟨#[0x84, 7, 1], 0, 1, 8, []⟩, .startingAt 1) := by
    decide +kernel
  obtain ⟨scope', pool', assembled, _⟩ := exists_assembled split made
  obtain ⟨sources, place, entries, added, split', same, rendered, fits⟩ := assemble_fits assembled
  cases split.symm.trans split'
  rw [Buffer.empty, List.nil_append] at same
  refine ⟨_, place, entries, same ▸ rendered, rfl, fun entry member => ?_⟩
  obtain ⟨source, among, fits⟩ := forall₂_mem_right fits member
  cases List.mem_singleton.1 (List.mem_of_mem_filter among)
  exact fits operand

end Assembled

end ClassSplice.Assembler
