import ClassSplice.Proofs.Layout.Sequence

namespace ClassSplice.Code

section Follow

variable {Value : Type} {meaning : Interpretation Value} {code : Array UInt8} {value : Value}

/-- What the new code passes on the way from an instruction: nothing, or the wide jump that a
conditional branch was widened with. -/
def Detour (code : Array UInt8) (here : Nat) (instruction : Instruction) (via : List Nat) : Prop :=
  via = [] ∨ via = [here + 3] ∧
    ∃ opcode target landed, instruction = .branch opcode target ∧ opcode.isConditional = true ∧
      Reads code (here + 3) ⟨5, .wideBranch Opcode.gotoW landed⟩

theorem getD_lands {Lands : Int → Int → Prop} {default moved : Int} {targets targets' : List Int}
    (landed : Lands default moved) (each : List.Forall₂ Lands targets targets') (i : Nat) :
    Lands (targets.getD i default) (targets'.getD i moved) := by
  induction each generalizing i with
  | nil => exact landed
  | cons first _ ih =>
      cases i with
      | zero => exact first
      | succ i => exact ih i

theorem lookup_lands {Lands : Int → Int → Prop} {default moved : Int}
    {cases cases' : List (Int32 × Int)} (landed : Lands default moved)
    (each : List.Forall₂ (fun old new => old.1 = new.1 ∧ Lands old.2 new.2) cases cases')
    (key : Int32) : Lands ((cases.lookup key).getD default) ((cases'.lookup key).getD moved) := by
  induction each with
  | nil => exact landed
  | @cons old new _ _ first _ ih =>
      obtain ⟨oldKey, target⟩ := old
      obtain ⟨newKey, target'⟩ := new
      obtain ⟨same, first⟩ := first
      dsimp only at same first
      subst same
      by_cases found : key = oldKey
      · subst found
        rw [List.lookup_cons_self, List.lookup_cons_self]
        exact first
      · rw [List.lookup_cons, List.lookup_cons, beq_false_of_ne found]
        exact ih

theorem getD_mem_targets (targets : List Int) (default : Int) (i : Nat) :
    targets.getD i default ∈ default :: targets := by
  rw [List.getD_eq_getElem?_getD]
  cases known : targets[i]? with
  | none => exact List.mem_cons_self
  | some target => exact List.mem_cons_of_mem _ (List.mem_of_getElem? known)

theorem lookup_mem_targets (cases : List (Int32 × Int)) (default : Int) (key : Int32) :
    (cases.lookup key).getD default ∈ default :: cases.map Prod.snd := by
  cases known : cases.lookup key with
  | none => exact List.mem_cons_self
  | some target =>
      obtain ⟨front, back, rfl, _⟩ := List.lookup_eq_some_iff.1 known
      exact List.mem_cons_of_mem _ (by simp)

theorem Instruction.successor_mem {instruction : Instruction} {behind goal : Int} {edge : Edge}
    (goes : instruction.successor meaning value behind = some (edge, goal)) :
    (edge = .onward ∧ goal = behind) ∨ goal ∈ instruction.targets := by
  cases instruction with
  | plain bytes =>
      simp only [successor] at goes
      split at goes
      · cases goes
        exact .inl ⟨rfl, rfl⟩
      · cases goes
  | branch opcode target =>
      simp only [successor] at goes
      split at goes
      · cases goes
        exact .inl ⟨rfl, rfl⟩
      · cases goes
        exact .inr (List.mem_singleton_self _)
  | wideBranch opcode target =>
      cases goes
      exact .inr (List.mem_singleton_self _)
  | tableSwitch default low high targets =>
      simp only [successor] at goes
      split at goes
      · cases goes
        exact .inr (getD_mem_targets targets default _)
      · cases goes
        exact .inr List.mem_cons_self
  | lookupSwitch default cases =>
      cases goes
      exact .inr (lookup_mem_targets cases default _)

/-- The instructions in place of one at `here` go where it goes: to `behind'`, where it goes on, or to
where its target lands. -/
def Follows (meaning : Interpretation Value) (Lands : Int → Int → Prop) (code : Array UInt8)
    (value : Value) (here behind' : Nat) (instruction : Instruction) (behind goal : Int)
    (edge : Edge) : Prop :=
  ∃ via, Detour code here instruction via ∧
    ((edge = .onward ∧ goal = behind ∧ Path meaning code value here via behind') ∨
      (edge = .jump ∧ ∃ landed, Lands goal landed ∧ Path meaning code value here via landed))

section Image

variable {Lands : Int → Int → Prop} {here behind' : Nat} {behind goal moved : Int}
  {instruction : Instruction} {image : List (Nat × Located)} {edge : Edge}

theorem follows_onward (steps : Steps meaning code value here edge behind') :
    Follows meaning Lands code value here behind' instruction behind behind .onward :=
  ⟨[], .inl rfl, .inl ⟨rfl, rfl, .last steps⟩⟩

theorem follows_jump (landed : Lands goal moved) (steps : Steps meaning code value here edge moved) :
    Follows meaning Lands code value here behind' instruction behind goal .jump :=
  ⟨[], .inl rfl, .inr ⟨rfl, moved, landed, .last steps⟩⟩

theorem follows_conditional {opcode inverse : Opcode} {target : Int}
    (opposite : opcode.Opposite inverse) (landed : Lands target moved)
    (reads : Reads code here ⟨3, .branch inverse (here + 8)⟩)
    (jump : Reads code (here + 3) ⟨5, .wideBranch Opcode.gotoW moved⟩)
    (goes : (Instruction.branch opcode target).successor meaning value behind = some (edge, goal)) :
    Follows meaning Lands code value here (here + 8) (.branch opcode target) behind goal edge := by
  obtain ⟨conditional, conditional'⟩ := opposite.isConditional
  have decided := meaning.opposite opposite value
  simp only [Instruction.successor, conditional, Bool.true_and] at goes
  cases taken : meaning.taken opcode value with
  | false =>
      rw [taken] at goes decided
      cases goes
      have skips : Steps meaning code value here .jump ((here : Int) + 8) :=
        ⟨_, reads, by simp [Instruction.successor, decided]⟩
      exact follows_onward skips
  | true =>
      rw [taken] at goes decided
      cases goes
      have onward : Steps meaning code value here .onward ((here + 3 : Nat) : Int) :=
        ⟨_, reads, by simp [Instruction.successor, conditional', decided]⟩
      have jumps (value : Value) : Steps meaning code value (here + 3) .jump moved :=
        ⟨_, jump, rfl⟩
      refine ⟨[here + 3], .inr ⟨rfl, opcode, _, moved, rfl, conditional, jump⟩, ?_⟩
      exact .inr ⟨rfl, moved, landed, .more onward fun value => .last (jumps value)⟩

theorem Image.follows (is : Image Lands here instruction image) (run : Runs code here image behind')
    (goes : instruction.successor meaning value behind = some (edge, goal)) :
    Follows meaning Lands code value here behind' instruction behind goal edge := by
  have alone {located : Located} (run : Runs code here [(here, located)] behind') :
      Reads code here located ∧ behind' = here + located.length := by
    cases run with
    | step reads rest =>
        cases rest
        exact ⟨reads, rfl⟩
  cases is with
  | plain bytes =>
      obtain ⟨reads, rfl⟩ := alone run
      simp only [Instruction.successor] at goes
      split at goes
      · rename_i onward
        cases goes
        have steps : Steps meaning code value here .onward ((here + bytes.length : Nat) : Int) :=
          ⟨_, reads, by simp [Instruction.successor, onward]⟩
        exact follows_onward steps
      · cases goes
  | @branch opcode target moved landed =>
      obtain ⟨reads, rfl⟩ := alone run
      simp only [Instruction.successor] at goes
      split at goes
      · rename_i untaken
        cases goes
        have steps : Steps meaning code value here .onward ((here + 3 : Nat) : Int) :=
          ⟨_, reads, by simp [Instruction.successor, untaken]⟩
        exact follows_onward steps
      · rename_i taken
        cases goes
        have steps : Steps meaning code value here .jump moved :=
          ⟨_, reads, by simp [Instruction.successor, taken]⟩
        exact follows_jump landed steps
  | @goto target moved landed =>
      obtain ⟨reads, rfl⟩ := alone run
      have unconditional : Opcode.isConditional Opcode.goto = false := by decide
      simp only [Instruction.successor, unconditional, Bool.false_and, Bool.false_eq_true,
        if_false] at goes
      cases goes
      exact follows_jump landed ⟨_, reads, rfl⟩
  | @jsr target moved landed =>
      obtain ⟨reads, rfl⟩ := alone run
      have unconditional : Opcode.isConditional Opcode.jsr = false := by decide
      simp only [Instruction.successor, unconditional, Bool.false_and, Bool.false_eq_true,
        if_false] at goes
      cases goes
      exact follows_jump landed ⟨_, reads, rfl⟩
  | @conditional opcode inverse target moved opposite landed =>
      cases run with
      | step reads rest =>
      cases rest with
      | step jump rest =>
      cases rest
      exact follows_conditional opposite landed reads jump goes
  | @wideBranch opcode target moved landed =>
      obtain ⟨reads, rfl⟩ := alone run
      cases goes
      exact follows_jump landed ⟨_, reads, rfl⟩
  | @tableSwitch default moved low high targets targets' landed each =>
      obtain ⟨reads, rfl⟩ := alone run
      simp only [Instruction.successor] at goes
      split at goes
      · rename_i inside
        cases goes
        let i := ((meaning.key value).toInt - low.toInt).toNat
        have steps : Steps meaning code value here .jump (targets'.getD i moved) :=
          ⟨_, reads, by simp [Instruction.successor, inside, i]⟩
        exact follows_jump (getD_lands landed each i) steps
      · rename_i outside
        cases goes
        have steps : Steps meaning code value here .jump moved :=
          ⟨_, reads, by simp [Instruction.successor, outside]⟩
        exact follows_jump landed steps
  | @lookupSwitch default moved cases cases' landed each =>
      obtain ⟨reads, rfl⟩ := alone run
      cases goes
      exact follows_jump (lookup_lands landed each _) ⟨_, reads, rfl⟩

end Image

theorem Path.through {here middle : Nat} {via : List Nat} {count : Nat}
    (path : Path meaning code value here via middle)
    (run : Runs code middle (nopsFrom middle count) (middle + count)) :
    Path meaning code value here (via ++ (nopsFrom middle count).map Prod.fst) (middle + count : Nat) := by
  induction count generalizing middle via with
  | zero => simpa [nopsFrom] using path
  | succ count ih =>
      cases run with
      | step reads rest =>
      have onward (value : Value) : Steps meaning code value middle .onward ((middle + 1 : Nat) : Int) :=
        ⟨_, reads, rfl⟩
      have further := path.append fun value => .last (onward value)
      have behind : middle + (count + 1) = middle + 1 + count := by omega
      rw [behind] at rest ⊢
      simpa [nopsFrom] using ih further rest

end Follow

/-- What becomes of a step from `pos` to `goal`: a jump leads to where jumps to `goal` land, and a
step onward to the gap in front of `goal`, if there is one, and through it. -/
def Kept {Value : Type} (meaning : Interpretation Value) (code : Array UInt8) (moved : Relocation)
    (value : Value) (pos : Nat) (via : List Nat) (goal : Nat) : Edge → Prop
  | .jump => Path meaning code value (moved.place pos) via (moved.land goal)
  | .onward => Path meaning code value (moved.place pos) via (moved.enter goal) ∧
      Path meaning code value (moved.place pos) (via ++ (moved.nopsAt goal).map Prod.fst)
        (moved.place goal)

theorem Opened.kept {Value : Type} {meaning : Interpretation Value} {value : Value} {old : Listing}
    {moved : Relocation} {code code' : Array UInt8} {pos : Nat} {located : Located} {edge : Edge}
    {goal : Int} (opened : Opened old moved code) (decoded : Listing.decode code' = .ok old)
    (member : (pos, located) ∈ old.entries)
    (goes : located.instruction.successor meaning value (pos + located.length) = some (edge, goal)) :
    ∃ (goal' : Nat) (via : List Nat), goal = goal' ∧ old.IsBoundary goal' ∧
      Detour code (moved.place pos) located.instruction via ∧
      Kept meaning code moved value pos via goal' edge := by
  obtain ⟨image, is, run⟩ := opened.image member
  obtain ⟨via, detour, ⟨rfl, rfl, path⟩ | ⟨rfl, landed, ⟨target, boundary, rfl, rfl⟩, path⟩⟩ :=
    is.follows run goes
  · refine ⟨pos + located.length, via, rfl, ?_, detour, path, ?_⟩
    · obtain ⟨index, known⟩ := Array.mem_iff_getElem?.1 member
      exact (isBoundary_iff decoded).2 ⟨_, indexAt_behind decoded known⟩
    · have gap := opened.runs_nopsAt (pos + located.length)
      unfold Relocation.nopsAt at gap ⊢
      by_cases here : pos + located.length = moved.gap.offset
      · rw [if_pos here] at gap ⊢
        rw [Relocation.enter, if_pos here] at gap path
        rw [here, opened.behind] at gap ⊢
        exact path.through gap
      · rw [if_neg here, List.map_nil, List.append_nil]
        rwa [Relocation.enter, if_neg here] at path
  · exact ⟨target, via, rfl, boundary, detour, path⟩

namespace Cursor

/-- Opening a gap keeps the flow of control between the instructions of a body. -/
theorem insertGap_keeps_flow {cursor next : Cursor} {gap : Gap} {start : Nat}
    (inserted : cursor.insertGap gap = .ok (start, next)) :
    ∃ old place, Listing.decode cursor.code.bytes = .ok old ∧
      Code.Opened old ⟨gap, start, place⟩ next.code.bytes ∧
      ∀ {Value : Type} (meaning : Interpretation Value) (value : Value) (pos : Nat)
        (located : Located) (edge : Edge) (goal : Int), (pos, located) ∈ old.entries →
        Steps meaning cursor.code.bytes value pos edge goal →
        ∃ (goal' : Nat) (via : List Nat), goal = goal' ∧ old.IsBoundary goal' ∧
          Detour next.code.bytes (place pos) located.instruction via ∧
          Kept meaning next.code.bytes ⟨gap, start, place⟩ value pos via goal' edge := by
  obtain ⟨old, place, opened⟩ := insertGap_opened inserted
  refine ⟨old, place, opened.decoded, opened.code, ?_⟩
  intro Value meaning value pos located edge goal member steps
  obtain ⟨located', reads, goes⟩ := steps
  have run := (decode_eq_ok.1 opened.decoded).1
  cases reads.unique (run.mem_bounds (Array.mem_toList_iff.2 member)).1
  exact opened.code.kept opened.decoded member goes

set_option maxRecDepth 4000 in
theorem insertGap_keeps_flow_loop :
    ∃ next, loopBody.insertGap ⟨0, 2, true⟩ = .ok (0, next) ∧
      ∃ (place : Nat → Nat) (via : List Nat), place 0 = 2 ∧
        Path comparisons next.code.bytes (0, 0) (place 1) via (place 0) := by
  have inserted : loopBody.insertGap ⟨0, 2, true⟩ =
      .ok (0, ⟨⟨1, 1, #[0x00, 0x00, 0x1a, 0x99, 0xff, 0xff, 0xb1], [], []⟩, 2⟩) := by
    cbv
  have listing : Listing.decode loopBody.code.bytes = .ok ⟨#[(0, ⟨1, .plain [0x1a]⟩),
      (1, ⟨3, .branch 0x99 0⟩), (4, ⟨1, .plain [0xb1]⟩)], 5⟩ := by
    cbv
  obtain ⟨old, place, decoded, opened, keeps⟩ := insertGap_keeps_flow inserted
  cases decoded.symm.trans listing
  have steps : Steps comparisons loopBody.code.bytes (0, 0) 1 .jump 0 :=
    ⟨⟨3, .branch 0x99 0⟩, ⟨by cbv, by cbv⟩, by decide +kernel⟩
  obtain ⟨goal, via, same, _, _, path⟩ := keeps comparisons (0, 0) 1 ⟨3, .branch 0x99 0⟩ .jump 0
    (by simp) steps
  obtain rfl : goal = 0 := by omega
  exact ⟨_, inserted, place, via, opened.behind, path⟩

end Cursor
end ClassSplice.Code
