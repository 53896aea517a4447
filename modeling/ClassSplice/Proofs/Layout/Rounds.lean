import ClassSplice.Proofs.Layout.Placement

/-!
The rounds in which branches are widened, with no regard to the length of the code.

Widening a branch moves no instruction back (`start_le_of_wider`), so a code that is too long in one
round is too long in all that follow. `settle_of_settles` says what settling comes to, if the rounds
end with a given layout, and `exists_settles` that they end where all targets are places of the code.
-/

namespace ClassSplice.Code

namespace Layout

variable {code : Array UInt8} {listing : Listing} {gap : Gap} {gapIndex : Nat}
  {widened wider : Array Bool}

def Wider (widened wider : Array Bool) : Prop :=
  ∀ index : Nat, widened[index]? = some true → wider[index]? = some true

theorem Wider.trans {widest : Array Bool} (first : Wider widened wider)
    (second : Wider wider widest) : Wider widened widest :=
  fun index raised => second index (first index raised)

theorem Wider.getD (wide : Wider widened wider) (index : Nat)
    (raised : widened.getD index false = true) : wider.getD index false = true := by
  rw [Array.getD_eq_getD_getElem?] at raised ⊢
  rw [wide index (by simpa [Option.getD_eq_iff] using raised), Option.getD_some]

section Monotone

variable (decoded : Listing.decode code = .ok listing) (wide : Wider widened wider)

include decoded wide

theorem arrival_le_of_wider (index : Nat) :
    (place listing gap gapIndex widened).arrival index ≤
      (place listing gap gapIndex wider).arrival index := by
  induction index with
  | zero => exact Nat.le_refl _
  | succ index ih =>
      have started : (place listing gap gapIndex widened).start index ≤
          (place listing gap gapIndex wider).start index := Nat.add_le_add_right ih _
      rcases Nat.lt_or_ge index listing.entries.size with inRange | beyond
      · have known (flags : Array Bool) : (place listing gap gapIndex flags).listing.entries[index]? =
            some listing.entries[index] := Array.getElem?_eq_getElem inRange
        have reads := reads_of_mem decoded (Array.mem_of_getElem? (known widened))
        rw [arrival_succ (known widened), arrival_succ (known wider)]
        exact add_lengthAt_mono reads.length_eq started (wide.getD index)
      · have missing (flags : Array Bool) :
            (place listing gap gapIndex flags).listing.entries[index]? = none :=
          Array.getElem?_eq_none beyond
        rw [arrival_beyond (missing widened), arrival_beyond (missing wider)]
        exact started

theorem start_le_of_wider (index : Nat) :
    (place listing gap gapIndex widened).start index ≤
      (place listing gap gapIndex wider).start index :=
  Nat.add_le_add_right (arrival_le_of_wider decoded wide index) _

theorem length_le_of_wider :
    (place listing gap gapIndex widened).length ≤ (place listing gap gapIndex wider).length := by
  rw [(place_placed listing gap gapIndex widened).length,
    (place_placed listing gap gapIndex wider).length]
  exact start_le_of_wider decoded wide _

end Monotone

inductive Settles (listing : Listing) (gap : Gap) (gapIndex : Nat) : Array Bool → Layout → Prop
  | stable {widened : Array Bool}
      (round : (place listing gap gapIndex widened).allNeedsWide = .ok widened) :
      Settles listing gap gapIndex widened (place listing gap gapIndex widened)
  | widen {widened wider : Array Bool} {layout : Layout}
      (round : (place listing gap gapIndex widened).allNeedsWide = .ok wider)
      (more : wider ≠ widened) (rest : Settles listing gap gapIndex wider layout) :
      Settles listing gap gapIndex widened layout

theorem Settles.unique {layout other : Layout} (settles : Settles listing gap gapIndex widened layout)
    (settles' : Settles listing gap gapIndex widened other) : layout = other := by
  induction settles with
  | stable round =>
      cases settles' with
      | stable => rfl
      | widen round' more => exact absurd (Except.ok.inj (round'.symm.trans round)) more
  | widen round more _ ih =>
      cases settles' with
      | stable round' => exact absurd (Except.ok.inj (round.symm.trans round')) more
      | widen round' _ rest =>
          cases round.symm.trans round'
          exact ih rest

theorem Settles.exists_wider {layout : Layout} (settles : Settles listing gap gapIndex widened layout)
    (only : OnlyBranches listing widened) :
    ∃ last, layout = place listing gap gapIndex last ∧ Wider widened last := by
  induction settles with
  | stable => exact ⟨_, rfl, fun _ raised => raised⟩
  | widen round _ _ ih =>
      obtain ⟨last, rfl, wide⟩ := ih (onlyBranches_of_round round)
      exact ⟨last, rfl, .trans (fun _ => rises_of_round only round) wide⟩

theorem Settles.length_le {layout : Layout} (settles : Settles listing gap gapIndex widened layout)
    (decoded : Listing.decode code = .ok listing) (only : OnlyBranches listing widened) :
    (place listing gap gapIndex widened).length ≤ layout.length := by
  obtain ⟨last, rfl, wide⟩ := settles.exists_wider only
  exact length_le_of_wider decoded wide

theorem narrowCount_lt_of_ne (only : OnlyBranches listing widened)
    (round : (place listing gap gapIndex widened).allNeedsWide = .ok wider)
    (more : wider ≠ widened) : narrowCount wider < narrowCount widened := by
  have same (stable : ¬ narrowCount wider < narrowCount widened) : wider = widened :=
    round_stable (show OnlyBranches (place listing gap gapIndex widened).listing widened from only)
      round stable
  by_contra stable
  exact more (same stable)

theorem settle_of_settles {final : Layout} (settles : Settles listing gap gapIndex widened final)
    (decoded : Listing.decode code = .ok listing) (only : OnlyBranches listing widened) :
    (final.length ≤ maxLength ∧ settle listing gap gapIndex widened = .ok final) ∨
      ∃ length, maxLength < length ∧ length ≤ final.length ∧
        settle listing gap gapIndex widened = .error (tooLong length) := by
  induction settles with
  | @stable widened round =>
      rw [settle]
      split
      · rename_i long
        exact .inr ⟨_, long, Nat.le_refl _, rfl⟩
      · rename_i fits
        refine .inl ⟨Nat.le_of_not_lt fits, ?_⟩
        simp only [round, Nat.lt_irrefl, if_false]
  | @widen widened wider layout round more rest ih =>
      have fewer := narrowCount_lt_of_ne only round more
      have below := (Settles.widen round more rest).length_le decoded only
      rw [settle]
      split
      · rename_i long
        exact .inr ⟨_, long, below, rfl⟩
      · simp only [round, fewer, if_true]
        exact ih (onlyBranches_of_round round)

section Aimed

variable {layout : Layout} (placed : layout.Placed)
  (decoded : Listing.decode code = .ok layout.listing)
  (found : layout.listing.indexAt layout.gap.offset = .ok layout.gapIndex)
  (aimed : layout.listing.Aimed)

include placed decoded found

theorem Placed.exists_relocate {old : Nat} (boundary : layout.listing.IsBoundary old) :
    ∃ new, layout.relocate old = .ok new := by
  obtain ⟨index, known⟩ := (isBoundary_iff decoded).1 boundary
  exact ⟨_, (placed.relocate_eq_ok decoded found).2 ⟨index, known, rfl⟩⟩

include aimed

theorem Placed.exists_displacement {pos : Nat} (here : Nat) {located : Located} {target : Int}
    (member : (pos, located) ∈ layout.listing.entries)
    (named : target ∈ located.instruction.targets) :
    ∃ distance, layout.displacement pos here target = .ok distance := by
  obtain ⟨goal, rfl, boundary⟩ := aimed _ member target named
  obtain ⟨new, relocated⟩ := placed.exists_relocate decoded found boundary
  refine ⟨new - here, ?_⟩
  rw [displacement, relocateTarget, if_neg (by omega), Int.toNat_natCast, relocated]
  rfl

theorem Placed.exists_needsWide {index : Nat} {entry : Nat × Located}
    (member : entry ∈ layout.listing.entries) :
    ∃ wide, layout.needsWide index entry = .ok wide := by
  obtain ⟨pos, length, instruction⟩ := entry
  cases instruction with
  | plain | wideBranch | tableSwitch | lookupSwitch => exact ⟨false, rfl⟩
  | branch opcode target =>
      have named : target ∈ (Instruction.branch opcode target).targets := List.mem_singleton_self _
      obtain ⟨distance, displaced⟩ := placed.exists_displacement decoded found aimed
        (layout.starts.getD index 0) member named
      simp only [needsWide, displaced, ok_bind]
      split
      · exact ⟨true, rfl⟩
      · exact ⟨_, rfl⟩

theorem Placed.exists_allNeedsWide : ∃ wider, layout.allNeedsWide = .ok wider := by
  have listed : ∃ flags, (layout.listing.entries.toList.mapIdx fun index entry =>
      (index, entry)).mapM (fun pair => layout.needsWide pair.1 pair.2) = .ok flags := by
    apply exists_mapM
    intro pair member
    obtain ⟨index, inRange, rfl⟩ := List.mem_mapIdx.1 member
    exact placed.exists_needsWide decoded found aimed
      (Array.mem_toList_iff.1 (List.getElem_mem inRange))
  obtain ⟨flags, done⟩ := listed
  rw [← Array.toList_mapIdx, ← Array.toList_mapM, functor_map_eq_ok] at done
  obtain ⟨wider, done, _⟩ := done
  exact ⟨wider, done⟩

end Aimed

theorem exists_settles (decoded : Listing.decode code = .ok listing)
    (found : listing.indexAt gap.offset = .ok gapIndex) (aimed : listing.Aimed)
    (only : OnlyBranches listing widened) : ∃ layout, Settles listing gap gapIndex widened layout := by
  induction bound : narrowCount widened using Nat.strong_induction_on generalizing widened with
  | _ count ih =>
      obtain ⟨wider, round⟩ := (place_placed listing gap gapIndex widened).exists_allNeedsWide decoded
        found aimed
      by_cases same : wider = widened
      · subst same
        exact ⟨_, .stable round⟩
      · have fewer := narrowCount_lt_of_ne only round same
        obtain ⟨layout, rest⟩ := ih _ (bound ▸ fewer) (onlyBranches_of_round round) rfl
        exact ⟨layout, .widen round same rest⟩

end Layout
end ClassSplice.Code
