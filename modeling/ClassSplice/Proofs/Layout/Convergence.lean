import ClassSplice.Proofs.Layout.Outcome

/-!
Settling as a loop. The rounds of widening come to an end for any code, in at most one round more than there
are branches of 16 bits (`exists_rounds`). A code that is too long in one round is so in every round that
could follow, and a branch that is left at 16 bits is written with the distance it needs (`converges`).
-/

namespace ClassSplice.Code

def Instruction.isNarrow : Instruction → Bool
  | branch .. => true
  | _ => false

def Listing.narrowBranches (listing : Listing) : Nat :=
  listing.entries.countP fun entry => entry.2.instruction.isNarrow

namespace Layout

variable {code : Array UInt8} {listing : Listing} {gap : Gap} {gapIndex : Nat}
  {widened wider : Array Bool} {layout : Layout} {rounds : List (Array Bool)}
  {result : Except Error Layout}

/-- The branches that are widened in each round, and what comes of it. Rounds go on for as long as there
are further branches to widen. -/
inductive Rounds (listing : Listing) (gap : Gap) (gapIndex : Nat) :
    Array Bool → List (Array Bool) → Except Error Layout → Prop
  | long {widened : Array Bool} (long : maxLength < (place listing gap gapIndex widened).length) :
      Rounds listing gap gapIndex widened [widened]
        (.error (tooLong (place listing gap gapIndex widened).length))
  | astray {widened : Array Bool} {error : Error}
      (fits : ¬ maxLength < (place listing gap gapIndex widened).length)
      (failed : (place listing gap gapIndex widened).allNeedsWide = .error error) :
      Rounds listing gap gapIndex widened [widened] (.error error)
  | stable {widened : Array Bool} (fits : ¬ maxLength < (place listing gap gapIndex widened).length)
      (round : (place listing gap gapIndex widened).allNeedsWide = .ok widened) :
      Rounds listing gap gapIndex widened [widened] (.ok (place listing gap gapIndex widened))
  | widen {widened wider : Array Bool} {rounds : List (Array Bool)} {result : Except Error Layout}
      (fits : ¬ maxLength < (place listing gap gapIndex widened).length)
      (round : (place listing gap gapIndex widened).allNeedsWide = .ok wider)
      (more : wider ≠ widened) (rest : Rounds listing gap gapIndex wider rounds result) :
      Rounds listing gap gapIndex widened (widened :: rounds) result

theorem Rounds.unique {rounds' : List (Array Bool)} {result' : Except Error Layout}
    (run : Rounds listing gap gapIndex widened rounds result)
    (run' : Rounds listing gap gapIndex widened rounds' result') :
    rounds = rounds' ∧ result = result' := by
  induction run generalizing rounds' result' with
  | long long =>
      cases run' with
      | long => exact ⟨rfl, rfl⟩
      | astray fits | stable fits | widen fits => exact absurd long fits
  | astray fits failed =>
      cases run' with
      | long long => exact absurd long fits
      | astray _ failed' =>
          cases failed.symm.trans failed'
          exact ⟨rfl, rfl⟩
      | stable _ round | widen _ round => cases failed.symm.trans round
  | stable fits round =>
      cases run' with
      | long long => exact absurd long fits
      | astray _ failed => cases failed.symm.trans round
      | stable => exact ⟨rfl, rfl⟩
      | widen _ round' more => exact absurd (Except.ok.inj (round'.symm.trans round)) more
  | widen fits round more _ ih =>
      cases run' with
      | long long => exact absurd long fits
      | astray _ failed => cases failed.symm.trans round
      | stable _ round' => exact absurd (Except.ok.inj (round.symm.trans round')) more
      | widen _ round' _ rest =>
          cases round.symm.trans round'
          obtain ⟨same, same'⟩ := ih rest
          exact ⟨congrArg _ same, same'⟩

theorem length_le_count {α : Type} {counts : α → Bool} {entries : List α} {flags : List Bool}
    (only : List.Forall₂ (fun entry flag => flag = true → counts entry = true) entries flags) :
    entries.length ≤ entries.countP counts + flags.count false := by
  induction only with
  | nil => exact Nat.le_refl _
  | @cons entry flag entries flags first _ ih =>
      cases flag with
      | true =>
          rw [List.countP_cons_of_pos (first rfl), List.count_cons_of_ne (by decide), List.length_cons]
          omega
      | false =>
          rw [List.count_cons_self, List.length_cons, List.countP_cons]
          omega

theorem OnlyBranches.size_le (only : OnlyBranches listing widened) :
    listing.size ≤ listing.narrowBranches + narrowCount widened := by
  have each : List.Forall₂ (fun (entry : Nat × Located) flag => flag = true →
      entry.2.instruction.isNarrow = true) listing.entries.toList widened.toList := by
    refine List.forall₂_iff_get.2 ⟨?_, fun index inside inside' raised => ?_⟩
    · rw [Array.length_toList, Array.length_toList, only.1, OffsetTable.size]
    simp only [List.get_eq_getElem, Array.getElem_toList] at raised ⊢
    obtain ⟨opcode, target, branch⟩ := only.2 index _ (Array.getElem?_eq_getElem (by simpa using inside))
      (Array.getElem?_eq_some_iff.2 ⟨_, raised⟩)
    rw [branch]
    rfl
  have counted := length_le_count each
  rwa [Array.length_toList, Array.countP_toList, Array.count_toList] at counted

theorem Rounds.length_le (run : Rounds listing gap gapIndex widened rounds result)
    (only : OnlyBranches listing widened) :
    rounds.length + listing.size ≤ listing.narrowBranches + narrowCount widened + 1 := by
  induction run with
  | long | astray | stable =>
      have := only.size_le
      rw [List.length_singleton]
      omega
  | widen _ round more _ ih =>
      have := ih (onlyBranches_of_round round)
      have := narrowCount_lt_of_ne only round more
      rw [List.length_cons]
      omega

theorem exists_rounds (gap : Gap) (gapIndex : Nat) (only : OnlyBranches listing widened) :
    ∃ rounds, Rounds listing gap gapIndex widened rounds (settle listing gap gapIndex widened) := by
  fun_induction settle listing gap gapIndex widened with
  | case1 widened _ long => exact ⟨_, .long long⟩
  | case2 widened _ fits error failed => exact ⟨_, .astray fits failed⟩
  | case3 widened _ fits wider round fewer ih =>
      obtain ⟨rounds, rest⟩ := ih (onlyBranches_of_round round)
      refine ⟨_, .widen fits round ?_ rest⟩
      rintro rfl
      exact Nat.lt_irrefl _ fewer
  | case4 widened layout fits wider round stable =>
      cases round_stable only (show layout.allNeedsWide = .ok wider from round) stable
      exact ⟨_, .stable fits round⟩

theorem displacement_eq_error {pos here : Nat} {target : Int} {error : Error}
    (failed : layout.displacement pos here target = .error error) :
    ∃ offset, error = .notABoundary offset := by
  unfold displacement at failed
  rcases moved : layout.relocateTarget pos target with _ | new
  · rw [moved] at failed
    cases failed
    unfold relocateTarget at moved
    split at moved
    · cases moved
      exact ⟨_, rfl⟩
    · unfold relocate at moved
      split at moved
      · cases moved
      · split at moved
        · cases moved
        · split at moved
          · cases moved
          · cases moved
            exact ⟨_, rfl⟩
  · rw [moved] at failed
    cases failed

theorem allNeedsWide_eq_error {error : Error} (failed : layout.allNeedsWide = .error error) :
    ∃ offset, error = .notABoundary offset := by
  have listed : (layout.listing.entries.toList.mapIdx fun index entry => (index, entry)).mapM
      (fun pair => layout.needsWide pair.1 pair.2) = .error error := by
    have := congrArg (Except.map Array.toList) failed
    rw [← Array.toList_mapIdx, ← Array.toList_mapM]
    exact this
  obtain ⟨⟨index, entry⟩, _, fails⟩ := exists_of_mapM_eq_error listed
  unfold needsWide at fails
  split at fails
  · split at fails
    · cases fails
    · rcases moved : layout.displacement entry.1 (layout.starts.getD index 0) _ with _ | distance
      · rw [moved] at fails
        cases fails
        exact displacement_eq_error moved
      · rw [moved] at fails
        cases fails
  · cases fails

theorem Rounds.ne_nil (run : Rounds listing gap gapIndex widened rounds result) : rounds ≠ [] := by
  cases run with
  | long | astray | stable | widen => exact List.cons_ne_nil _ _

theorem Rounds.exists_last {error : Error}
    (run : Rounds listing gap gapIndex widened rounds (.error error))
    (inside : ∀ offset, error ≠ .notABoundary offset) :
    ∃ last, rounds.getLast? = some last ∧ maxLength < (place listing gap gapIndex last).length ∧
      error = tooLong (place listing gap gapIndex last).length := by
  generalize failed : Except.error error = result at run
  induction run with
  | long long =>
      cases failed
      exact ⟨_, rfl, long, rfl⟩
  | astray _ astray =>
      cases failed
      obtain ⟨offset, same⟩ := allNeedsWide_eq_error astray
      exact absurd same (inside offset)
  | stable => cases failed
  | widen _ _ _ rest ih =>
      obtain ⟨last, known, long⟩ := ih failed
      refine ⟨last, ?_, long⟩
      rw [List.getLast?_cons_of_ne_nil rest.ne_nil, known]

theorem Rounds.length_le_of_settles {last : Array Bool}
    (run : Rounds listing gap gapIndex widened rounds result)
    (decoded : Listing.decode code = .ok listing)
    (settles : Settles listing gap gapIndex widened layout) (only : OnlyBranches listing widened)
    (known : rounds.getLast? = some last) :
    (place listing gap gapIndex last).length ≤ layout.length := by
  induction run with
  | long | astray | stable =>
      cases known
      exact settles.length_le decoded only
  | widen _ round more rest ih =>
      rw [List.getLast?_cons_of_ne_nil rest.ne_nil] at known
      cases settles with
      | stable round' => exact absurd (Except.ok.inj (round.symm.trans round')) more
      | widen round' _ settles =>
          cases round.symm.trans round'
          exact ih settles (onlyBranches_of_round round) known

theorem Rounds.wider_of_mem (run : Rounds listing gap gapIndex widened rounds result)
    (only : OnlyBranches listing widened) : ∀ round ∈ rounds, Wider widened round := by
  induction run with
  | long | astray | stable =>
      intro round member
      rw [List.mem_singleton.1 member]
      exact fun _ raised => raised
  | widen _ round _ _ ih =>
      intro later member
      rcases List.mem_cons.1 member with rfl | member
      · exact fun _ raised => raised
      · exact .trans (fun _ => rises_of_round only round) (ih (onlyBranches_of_round round) later member)

theorem Rounds.pairwise (run : Rounds listing gap gapIndex widened rounds result)
    (only : OnlyBranches listing widened) : rounds.Pairwise Wider := by
  induction run with
  | long | astray | stable => exact List.pairwise_singleton ..
  | widen fits round more rest ih =>
      have kept := onlyBranches_of_round round
      refine List.pairwise_cons.2 ⟨fun later member => ?_, ih kept⟩
      exact .trans (fun _ => rises_of_round only round) (rest.wider_of_mem kept later member)

structure Exact (layout : Layout) : Prop where
  /-- A branch of 16 bits that is not widened is written with its distance, which fits. -/
  short : ∀ {index pos length : Nat} {opcode : Opcode} {target : Int},
    layout.listing.entries[index]? = some (pos, ⟨length, .branch opcode target⟩) →
      layout.widened.getD index false = false → ∃ here distance,
        layout.starts[index]? = some here ∧ layout.displacement pos here target = .ok distance ∧
        isShort distance = true ∧ ∀ out, layout.emit = .ok out →
          byteAt out here = .ok opcode ∧ ∃ n, i16At out (here + 1) = .ok n ∧ n.toInt = distance
  size : ∀ out, layout.emit = .ok out → out.size = layout.length
  emitted : layout.listing.Aimed → ∃ out, layout.emit = .ok out

theorem Lands.unique {target moved moved' : Int} (lands : layout.Lands target moved)
    (lands' : layout.Lands target moved') : moved = moved' := by
  obtain ⟨old, new, rfl, relocated, rfl⟩ := lands
  obtain ⟨old', new', same, relocated', rfl⟩ := lands'
  cases Int.ofNat.inj same
  cases relocated.symm.trans relocated'
  rfl

theorem Computed.exact (computed : layout.Computed code) : layout.Exact where
  short {index pos length opcode target} known narrow := by
    have inRange := (Array.getElem?_eq_some_iff.1 known).1
    have starts := computed.placed.starts index inRange
    obtain ⟨distance, displaced, fits⟩ := computed.settled.short known narrow
    rw [Array.getD_eq_getD_getElem?, starts, Option.getD_some] at displaced
    refine ⟨_, distance, starts, displaced, fits, fun out emitted => ?_⟩
    obtain ⟨moved, landed, rfl⟩ := displacement_eq_ok.1 displaced
    obtain ⟨image, is, run⟩ := (computed.emit_written emitted).2.image inRange known
    have short : layout.arrival (index + 1) = layout.start index + 3 := by
      have reads := reads_of_mem computed.decoded (Array.mem_of_getElem? known)
      rw [arrival_succ known, narrow]
      exact congrArg _ reads.length_eq
    cases is.eq_of_short (short ▸ run) fun moved' lands => lands.unique landed
    cases run with
    | step reads =>
        have spelled := spelled_of_reads reads
        generalize same : Located.mk 3 (Instruction.branch opcode moved) = located at spelled
        cases spelled with
        | branch first short read =>
            cases same
            exact ⟨first, _, read, by omega⟩
        | plain | wideBranch | tableSwitch | lookupSwitch => cases congrArg Located.instruction same
  size out emitted := (computed.emit_written emitted).1
  emitted aimed := computed.placed.exists_emit computed.decoded computed.gapIndex aimed

/-- How the layout of a code is computed, whose instructions can be told apart. -/
structure Converges (code : Array UInt8) (gap : Gap) (listing : Listing) (gapIndex : Nat) : Prop where
  rounds : ∃ rounds, (∀ rounds' result,
      Rounds listing gap gapIndex (Array.replicate listing.size false) rounds' result ↔
        rounds' = rounds ∧ result = compute code gap) ∧
    rounds.length ≤ listing.narrowBranches + 1 ∧ rounds.Pairwise Wider
  exact : ∀ layout, compute code gap = .ok layout → layout.Exact
  /-- Widening more branches moves no instruction back, and neither the end of the code. -/
  monotone : ∀ widened wider, Wider widened wider →
    (∀ (index : Nat) new new', (place listing gap gapIndex widened).starts[index]? = some new →
      (place listing gap gapIndex wider).starts[index]? = some new' → new ≤ new') ∧
    (place listing gap gapIndex widened).length ≤ (place listing gap gapIndex wider).length
  /-- A code that is too long in one round is too long with the branches that are widened later, be it
  for a body or for the words that offsets are. -/
  overflow : ∀ error, compute code gap = .error error → (∀ offset, error ≠ .notABoundary offset) →
    ∃ rounds last length, Rounds listing gap gapIndex (Array.replicate listing.size false) rounds
        (.error error) ∧ rounds.getLast? = some last ∧
      length = (place listing gap gapIndex last).length ∧ maxLength < length ∧ error = tooLong length ∧
      (∀ wider, Wider last wider → length ≤ (place listing gap gapIndex wider).length) ∧
      ∀ final, IsFinal listing gap final → length ≤ final.length

theorem starts_le_of_wider (decoded : Listing.decode code = .ok listing) (wide : Wider widened wider)
    {index new new' : Nat} (starts : (place listing gap gapIndex widened).starts[index]? = some new)
    (starts' : (place listing gap gapIndex wider).starts[index]? = some new') : new ≤ new' := by
  have placed := place_placed listing gap gapIndex widened
  have inRange : index < listing.size :=
    placed.size ▸ (Array.getElem?_eq_some_iff.1 starts).1
  cases starts.symm.trans (placed.starts index inRange)
  cases starts'.symm.trans ((place_placed listing gap gapIndex wider).starts index inRange)
  exact start_le_of_wider decoded wide index

theorem converges_of_decode (decoded : Listing.decode code = .ok listing)
    (found : listing.indexAt gap.offset = .ok gapIndex) : Converges code gap listing gapIndex := by
  have only := onlyBranches_replicate listing
  have settles : compute code gap =
      settle listing gap gapIndex (Array.replicate listing.size false) := by
    rw [compute, decoded, ok_bind, found, ok_bind]
  refine ⟨?_, fun layout computed => (computed_of_compute computed).1.exact,
    fun widened wider wide => ⟨fun index new new' => starts_le_of_wider decoded wide,
      length_le_of_wider decoded wide⟩, fun error failed inside => ?_⟩
  · obtain ⟨rounds, run⟩ := exists_rounds gap gapIndex only
    refine ⟨rounds, fun rounds' result => ?_, ?_, run.pairwise only⟩
    · rw [settles]
      refine ⟨fun run' => run'.unique run, ?_⟩
      rintro ⟨rfl, rfl⟩
      exact run
    · have few := run.length_le only
      rw [narrowCount, Array.count_replicate_self] at few
      omega
  · rw [settles] at failed
    obtain ⟨rounds, run⟩ := exists_rounds gap gapIndex only
    rw [failed] at run
    obtain ⟨last, known, long, reported⟩ := run.exists_last inside
    refine ⟨rounds, last, _, run, known, rfl, long, reported,
      fun wider wide => length_le_of_wider decoded wide, ?_⟩
    rintro final ⟨gapIndex', found', settled⟩
    cases found.symm.trans found'
    exact run.length_le_of_settles decoded settled only known

/-- A layout is computed in few rounds, or the code has no place for it. -/
theorem converges (code : Array UInt8) (gap : Gap) :
    (∃ listing gapIndex, Listing.decode code = .ok listing ∧
      listing.indexAt gap.offset = .ok gapIndex ∧ Converges code gap listing gapIndex) ∨
    ∃ error, compute code gap = .error error ∧ (Listing.decode code = .error error ∨
      ∃ listing, Listing.decode code = .ok listing ∧ listing.indexAt gap.offset = .error error) := by
  rcases decoded : Listing.decode code with error | listing
  · exact .inr ⟨error, by rw [compute, decoded]; rfl, .inl rfl⟩
  · rcases found : listing.indexAt gap.offset with error | gapIndex
    · exact .inr ⟨error, by rw [compute, decoded, ok_bind, found]; rfl, .inr ⟨listing, rfl, found⟩⟩
    · exact .inl ⟨listing, gapIndex, rfl, found, converges_of_decode decoded found⟩

end Layout
end ClassSplice.Code
