import ClassSplice.Proofs.Assembler.Placement
import ClassSplice.Proofs.Code.Reach
import ClassSplice.Proofs.Edit.Change
import ClassSplice.Proofs.Edit.Sound

namespace ClassSplice.Edit

open Code (Buffer Instruction Listing Located Opcode Reads Runs StaysInside Stops Tiles verdict)

section Last

variable {code : Array UInt8} {entries : List (Nat × Located)}

theorem Reads.fallsThrough_of_endsFlow {pos : Nat} {located : Located} {opcode : Opcode}
    (reads : Reads code pos located) (first : Code.byteAt code pos = .ok opcode)
    (ends : opcode.endsFlow = true) : located.instruction.fallsThrough = false := by
  cases Code.spelled_of_reads reads with
  | @plain _ _ bytes first' ordinary found claimed held =>
      cases bytes with
      | nil => rfl
      | cons byte operands =>
          have known := Code.byteAt_of_holds (Code.holds_cons.1 held).1
          cases first.symm.trans known
          simp [Instruction.fallsThrough, Code.runsOn, ends]
  | branch first' | wideBranch first' =>
      cases first.symm.trans first'
      simp [Instruction.fallsThrough, ends]
  | tableSwitch | lookupSwitch => rfl

theorem fallsThrough_eq {starts : List Nat} {stop : Nat} {fault : Option Error}
    (tiles : Tiles code 0 starts stop) (stops : Stops code stop fault) :
    fallsThrough code =
      verdict (starts.getLast?.all fun start => !code[start]?.any Opcode.endsFlow) fault := by
  rw [fallsThrough, Code.lastOpcode?, Code.lastOpcodeFrom_eq tiles stops]
  cases fault with
  | some error => rfl
  | none =>
      cases starts.getLast? with
      | none => rfl
      | some start =>
          show ((Except.ok code[start]? : Except Error _) >>= _) = _
          rw [ok_bind, verdict, Option.all_some]
          cases code[start]? <;> rfl

theorem ended_of_fallsThrough (run : Runs code 0 entries code.size)
    (tested : fallsThrough code = .ok false) :
    ∃ front pos located, entries = front ++ [(pos, located)] ∧
      located.instruction.fallsThrough = false := by
  rw [fallsThrough_eq run.tiles (.ended (Nat.le_refl _))] at tested
  rcases List.eq_nil_or_concat entries with rfl | ⟨front, ⟨pos, located⟩, rfl⟩
  · cases tested
  · refine ⟨front, pos, located, List.concat_eq_append, ?_⟩
    rw [List.concat_eq_append] at run tested
    obtain ⟨reads, _⟩ := run.mem_bounds (List.mem_append_right _ (List.mem_singleton_self _))
    have inCode := reads.le_size
    have room := reads.length_pos
    have first : code[pos]? = some code[pos] := Array.getElem?_eq_getElem (by omega)
    rw [List.map_append, List.map_singleton, List.getLast?_concat, Option.all_some, first,
      Option.any_some] at tested
    exact Reads.fallsThrough_of_endsFlow reads (Code.byteAt_eq_ok.2 first)
      (by simpa using Except.ok.inj tested)

end Last

theorem exists_listing {code : Array UInt8} {front : List (Nat × Located)} {last : Nat × Located}
    (run : Runs code 0 (front ++ [last]) code.size)
    (landing : ∀ entry ∈ front ++ [last], ∀ target ∈ entry.2.instruction.targets,
      ∃ pos : Nat, target = pos ∧ Assembler.Starts (front ++ [last]) code.size pos)
    (ends : last.2.instruction.fallsThrough = false) :
    ∃ listing, Listing.decode code = .ok listing ∧ listing.Aimed ∧
      ∀ pos located, (pos, located) ∈ listing.entries → pos + located.length = code.size →
        located.instruction.fallsThrough = false := by
  refine ⟨_, Code.decode_of_runs run, fun entry member target known => ?_,
    fun pos located member behind => ?_⟩
  · obtain ⟨pos, same, starts⟩ := landing entry (by simpa using member) target known
    refine ⟨pos, same, starts.imp_right fun member => ?_⟩
    obtain ⟨⟨_, located⟩, among, rfl⟩ := List.mem_map.1 member
    exact ⟨located, List.mem_toArray.2 among⟩
  · obtain ⟨middle, before, behind'⟩ := Code.runs_append.1 run
    rcases List.mem_append.1 (List.mem_toArray.1 member) with earlier | final
    · have := (before.mem_bounds earlier).2.2
      have := behind'.lt (List.cons_ne_nil _ _)
      omega
    · rw [← List.mem_singleton.1 final] at ends
      exact ends

theorem completed_bytes {buffer : Buffer} {answer : Bool} {code : Code}
    (finished : completed buffer answer = .ok code) :
    code.bytes = if answer then buffer.bytes.push Opcode.vreturn else buffer.bytes := by
  obtain ⟨_, _, finished⟩ := bind_eq_ok.1 finished
  cases pure_eq_ok.1 finished
  cases answer <;> rfl

theorem newBody_listing {context : Context} {source : String} {code : Code} {pool pool' : Pool}
    (void : context.type.returns = none)
    (made : outcome (newBody context source) pool = (.ok code, pool'))
    (small : code.bytes.size ≤ 2147483647) :
    ∃ listing, Listing.decode code.bytes = .ok listing ∧ listing.Aimed ∧
      ∀ pos located, (pos, located) ∈ listing.entries →
        pos + located.length = code.bytes.size → located.instruction.fallsThrough = false := by
  obtain ⟨buffer, _, compiled, made⟩ := outcome_bind_eq_ok.1 made
  obtain ⟨scope, assembled⟩ := outcome_compileWith_eq_ok.1 compiled
  obtain ⟨answer, _, step, made⟩ := outcome_bind_eq_ok.1 made
  obtain ⟨tested, rfl⟩ := outcome_demand_eq_ok.1 step
  obtain ⟨finished, rfl⟩ := outcome_demand_eq_ok.1 made
  have bytes := completed_bytes finished
  have tested : fallsThrough buffer.bytes = .ok answer := by
    rwa [needsReturn, if_pos (by rw [void]; rfl)] at tested
  have start : (context.scope (.empty 0 0)).2.pc = 0 := by
    obtain ⟨slots, same⟩ := exists_scope_eq context (.empty 0 0)
    rw [same]
    rfl
  have fits : buffer.pc ≤ 2147483647 := by
    refine Nat.le_trans ?_ small
    rw [bytes, Buffer.pc]
    split
    · simp
    · exact Nat.le_refl _
  obtain ⟨entries, run, landing⟩ := Assembler.assemble_runs assembled fits
  have run : Runs buffer.bytes 0 entries buffer.pc := start ▸ run
  cases answer with
  | false =>
      obtain ⟨front, pos, located, rfl, ends⟩ := ended_of_fallsThrough run tested
      rw [bytes]
      exact exists_listing run landing ends
  | true =>
      rw [bytes, if_pos rfl]
      have size : (buffer.bytes.push Opcode.vreturn).size = buffer.pc + 1 := Array.size_push _
      have held : Code.Holds (buffer.bytes.push Opcode.vreturn) buffer.pc [Opcode.vreturn] :=
        ⟨buffer.bytes.toList, [], by simp, Array.length_toList⟩
      have reads := reads_single (by decide +kernel) (by decide) held
      have whole := (run.append_right #[Opcode.vreturn]).append (.single reads)
      rw [Array.append_singleton] at whole
      refine exists_listing (by rwa [size]) (fun entry member target known => ?_) rfl
      rcases List.mem_append.1 member with earlier | final
      · obtain ⟨pos, same, starts⟩ := landing entry earlier target known
        refine ⟨pos, same, .inr ?_⟩
        rw [List.map_append, List.mem_append]
        exact starts.symm.imp_right fun ended => List.mem_singleton.2 ended
      · cases List.mem_singleton.1 final
        cases known

/-- Control leaves the new body of a method that returns nothing only by a jump to its end. -/
theorem setBody_staysInside_iff {editor editor' : Editor} {index : Nat} {source : String}
    {context : Context} (done : outcome (setBody assemble index source) editor = (.ok (), editor'))
    (known : outcome (contextAt index) editor = (.ok context, editor))
    (void : context.type.returns = none) :
    ∃ code pool, outcome (newBody context source) editor.file.pool = (.ok code, pool) ∧
      Written editor editor' index code pool ∧
      (code.bytes.size ≤ 2147483647 →
        (StaysInside code ↔ ∀ pos located, Code.Reached code pos → Reads code.bytes pos located →
          (code.bytes.size : Int) ∉ located.instruction.targets)) := by
  obtain ⟨context', code, pool, known', made, written⟩ := setBody_written done
  cases known.symm.trans known'
  refine ⟨code, pool, made, written, fun small => ?_⟩
  obtain ⟨listing, decoded, aimed, ended⟩ := newBody_listing void made small
  obtain ⟨listing', decoded', _, fits⟩ := checkBody_sound written.sound
  cases decoded.symm.trans decoded'
  exact Code.staysInside_iff decoded aimed (fun handler member => (fits handler member).target.1) ended

set_option maxRecDepth 4000 in
theorem setBody_staysInside_iff_spin :
    ∃ editor', outcome (setBody assemble 0 spinSource) (smallClass Code.Cursor.loopBody.code) =
        (.ok (), editor') ∧
      Written (smallClass Code.Cursor.loopBody.code) editor' 0 spinCode smallPool ∧
      StaysInside spinCode := by
  obtain ⟨editor', done⟩ := exists_setBody_spin Code.Cursor.loopBody.code
  obtain ⟨code, pool, made, written, inside⟩ :=
    setBody_staysInside_iff done (contextAt_smallClass _) rfl
  cases made.symm.trans (newBody_spin compileWith_spin_smallPool)
  obtain ⟨listing, decoded, aimed, _⟩ := newBody_listing rfl made (by decide)
  have listed : Listing.decode spinCode.bytes =
      .ok ⟨#[(0, ⟨1, .plain [0x03]⟩), (1, ⟨3, .branch 0x9a 0⟩), (4, ⟨1, .plain [0xb1]⟩)], 5⟩ := by cbv
  cases decoded.symm.trans listed
  refine ⟨editor', done, written, (inside (by decide)).2 fun pos located reached reads => ?_⟩
  have boundary := reached.isBoundary decoded aimed (List.forall_mem_nil _)
  have member := Code.mem_of_reads decoded boundary reads
  have targets : ∀ entry ∈ [(0, Located.mk 1 (.plain [0x03])), (1, ⟨3, .branch 0x9a 0⟩),
      (4, ⟨1, .plain [0xb1]⟩)], (5 : Int) ∉ entry.2.instruction.targets := by
    decide
  exact targets _ (List.mem_toArray.1 member)

end ClassSplice.Edit
