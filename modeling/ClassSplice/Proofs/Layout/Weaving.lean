import ClassSplice.Proofs.Layout.Sequence

/-!
Code that is put between the instructions of a body, one gap after the other. `Woven` says where the
instructions of the body stand by then, and what stands in front of each of them.

Main statements: `Woven.through` (a further gap), `Woven.overwritten` (new instructions in place of
those in front of an instruction) and `Woven.mem_cases` (every instruction of the code is one or the
other).
-/

namespace ClassSplice.Code

structure Weaving where
  enter : Nat → Nat
  place : Nat → Nat
  inserted : Nat → List (Nat × Located)
  images : Nat → List (Nat × Located)

namespace Weaving

def Lands (weaving : Weaving) (old : Listing) (target landed : Int) : Prop :=
  ∀ pos : Nat, old.IsBoundary pos → target = pos → landed = weaving.enter pos

def through (weaving : Weaving) (moved : Relocation) (images : Nat → List (Nat × Located)) :
    Weaving where
  enter pos := moved.enter (weaving.enter pos)
  place pos := moved.place (weaving.place pos)
  inserted pos := moved.nopsAt (weaving.enter pos) ++
    (weaving.inserted pos).flatMap fun entry => images entry.1
  images pos := (weaving.images pos).flatMap fun entry => images entry.1

def insert (weaving : Weaving) (pos : Nat) (entries : List (Nat × Located)) : Weaving where
  enter := weaving.enter
  place := weaving.place
  inserted := Function.update weaving.inserted pos entries
  images := weaving.images

@[simp] theorem inserted_insert (weaving : Weaving) (pos : Nat) (entries : List (Nat × Located)) :
    (weaving.insert pos entries).inserted pos = entries :=
  Function.update_self ..

theorem inserted_insert_of_ne {weaving : Weaving} {pos pos' : Nat} {entries : List (Nat × Located)}
    (different : pos' ≠ pos) : (weaving.insert pos entries).inserted pos' = weaving.inserted pos' :=
  Function.update_of_ne different ..

end Weaving

structure Woven (old : Listing) (weaving : Weaving) (code : Array UInt8) : Prop where
  first : weaving.enter 0 = 0
  stop : weaving.place old.next = code.size
  ordered : ∀ {pos pos' : Nat}, old.IsBoundary pos → old.IsBoundary pos' → pos < pos' →
    weaving.place pos < weaving.enter pos'
  inserted : ∀ {pos : Nat}, old.IsBoundary pos →
    Runs code (weaving.enter pos) (weaving.inserted pos) (weaving.place pos)
  image : ∀ {pos : Nat} {located : Located}, (pos, located) ∈ old.entries →
    Image (weaving.Lands old) (weaving.place pos) located.instruction (weaving.images pos)
  body : ∀ {pos : Nat} {located : Located}, (pos, located) ∈ old.entries →
    Runs code (weaving.place pos) (weaving.images pos) (weaving.enter (pos + located.length))

theorem Woven.enter_le_place {old : Listing} {weaving : Weaving} {code : Array UInt8} {pos : Nat}
    (woven : Woven old weaving code) (boundary : old.IsBoundary pos) :
    weaving.enter pos ≤ weaving.place pos :=
  (woven.inserted boundary).le

theorem Woven.enter_lt {old : Listing} {weaving : Weaving} {code : Array UInt8} {pos pos' : Nat}
    (woven : Woven old weaving code) (boundary : old.IsBoundary pos)
    (boundary' : old.IsBoundary pos') (less : pos < pos') : weaving.enter pos < weaving.enter pos' :=
  Nat.lt_of_le_of_lt (woven.enter_le_place boundary) (woven.ordered boundary boundary' less)

theorem Woven.place_lt_enter_iff {old : Listing} {weaving : Weaving} {code : Array UInt8} {pos pos' : Nat}
    (woven : Woven old weaving code) (boundary : old.IsBoundary pos)
    (boundary' : old.IsBoundary pos') : weaving.place pos < weaving.enter pos' ↔ pos < pos' := by
  refine ⟨fun before => ?_, woven.ordered boundary boundary'⟩
  by_contra above
  rcases Nat.lt_or_eq_of_le (Nat.le_of_not_lt above) with less | rfl
  · have := woven.enter_lt boundary' boundary less
    have := woven.enter_le_place boundary
    omega
  · exact Nat.not_lt_of_le (woven.enter_le_place boundary) before

theorem Woven.enter_inj {old : Listing} {weaving : Weaving} {code : Array UInt8} {pos pos' : Nat}
    (woven : Woven old weaving code) (boundary : old.IsBoundary pos)
    (boundary' : old.IsBoundary pos') (same : weaving.enter pos = weaving.enter pos') :
    pos = pos' := by
  rcases Nat.lt_trichotomy pos pos' with less | equal | greater
  · exact absurd same (Nat.ne_of_lt (woven.enter_lt boundary boundary' less))
  · exact equal
  · exact absurd same.symm (Nat.ne_of_lt (woven.enter_lt boundary' boundary greater))

section Woven

variable {base code code' : Array UInt8} {old now : Listing} {weaving : Weaving} {pos pos' : Nat}
  {located : Located}

theorem exists_woven (decoded : Listing.decode base = .ok old) :
    ∃ weaving, Woven old weaving base ∧ weaving.enter = id ∧ weaving.place = id ∧
      ∀ pos, weaving.inserted pos = [] := by
  have chosen : ∀ pos, ∃ image : List (Nat × Located), ∀ located, (pos, located) ∈ old.entries →
      image = [(pos, located)] := by
    intro pos
    by_cases known : ∃ located, (pos, located) ∈ old.entries
    · obtain ⟨located, member⟩ := known
      refine ⟨[(pos, located)], fun other member' => ?_⟩
      rw [located_unique decoded member member']
    · exact ⟨[], fun located member => absurd ⟨located, member⟩ known⟩
  choose images each using chosen
  refine ⟨⟨id, id, fun _ => [], images⟩, ⟨rfl, (decode_eq_ok.1 decoded).2, ?_, ?_, ?_, ?_⟩, rfl, rfl,
    fun _ => rfl⟩
  · intro pos pos' _ _ less
    exact less
  · intro pos _
    exact .done pos
  · intro pos located member
    dsimp only
    rw [each pos located member]
    apply Image.refl (reads_of_mem decoded member).length_eq
    intro target pos _ same
    exact same
  · intro pos located member
    dsimp only
    rw [each pos located member]
    exact .single (reads_of_mem decoded member)

theorem Woven.runs (woven : Woven old weaving code) {entries : List (Nat × Located)}
    {start stop : Nat} (run : Runs base start entries stop)
    (listed : ∀ entry ∈ entries, entry ∈ old.entries) :
    Runs code (weaving.enter start)
      (entries.flatMap fun entry => weaving.inserted entry.1 ++ weaving.images entry.1)
      (weaving.enter stop) := by
  induction run with
  | done => exact .done _
  | @step pos stop located entries reads rest ih =>
      rw [List.flatMap_cons]
      have member := listed _ List.mem_cons_self
      apply Runs.append ((woven.inserted (.inr ⟨located, member⟩)).append (woven.body member))
      apply ih
      intro entry member
      exact listed entry (List.mem_cons_of_mem _ member)

theorem Woven.runs_whole (decoded : Listing.decode base = .ok old) (woven : Woven old weaving code) :
    Runs code 0 (old.entries.toList.flatMap (fun entry =>
      weaving.inserted entry.1 ++ weaving.images entry.1) ++ weaving.inserted old.next) code.size := by
  have body := woven.runs (decode_eq_ok.1 decoded).1 fun entry member => Array.mem_toList_iff.1 member
  have whole := body.append (woven.inserted (.inl rfl))
  rwa [woven.first, woven.stop] at whole

theorem Woven.place_le_size (decoded : Listing.decode base = .ok old)
    (woven : Woven old weaving code) (boundary : old.IsBoundary pos) :
    weaving.place pos ≤ code.size := by
  rw [← woven.stop]
  rcases Nat.lt_or_eq_of_le (boundary.le_next decoded) with less | rfl
  · have before := woven.ordered boundary (.inl rfl) less
    exact Nat.le_of_lt (Nat.lt_of_lt_of_le before (woven.enter_le_place (.inl rfl)))
  · exact Nat.le_refl _

theorem Woven.boundary_enter (decoded : Listing.decode base = .ok old)
    (woven : Woven old weaving code) (decoded' : Listing.decode code = .ok now)
    (boundary : old.IsBoundary pos) : now.IsBoundary (weaving.enter pos) := by
  obtain ⟨front, back, listed, before, behind⟩ := (isBoundary_iff_runs decoded).1 boundary
  have member (entry : Nat × Located) (known : entry ∈ front ∨ entry ∈ back) : entry ∈ old.entries := by
    rw [← Array.mem_toList_iff, listed]
    exact List.mem_append.2 known
  have first := woven.runs before fun entry known => member entry (.inl known)
  have second := woven.runs behind fun entry known => member entry (.inr known)
  rw [woven.first] at first
  exact isBoundary_of_runs decoded' first (second.append (woven.inserted (.inl rfl))) woven.stop

theorem Woven.boundary_place (decoded : Listing.decode base = .ok old)
    (woven : Woven old weaving code) (decoded' : Listing.decode code = .ok now)
    (boundary : old.IsBoundary pos) : now.IsBoundary (weaving.place pos) := by
  obtain ⟨front, back, _, before, behind⟩ :=
    (isBoundary_iff_runs decoded').1 (woven.boundary_enter decoded decoded' boundary)
  have inserted := woven.inserted boundary
  have size := (decode_eq_ok.1 decoded').2
  have inside : weaving.place pos ≤ now.next := by
    rw [size]
    exact woven.place_le_size decoded boundary
  obtain ⟨rest, _, rest_runs⟩ := behind.cancel inserted inside
  exact isBoundary_of_runs decoded' (before.append inserted) rest_runs size

theorem Woven.mem_cases (decoded : Listing.decode base = .ok old) (woven : Woven old weaving code)
    (decoded' : Listing.decode code = .ok now) (member : (pos, located) ∈ now.entries) :
    (∃ goal, old.IsBoundary goal ∧ (pos, located) ∈ weaving.inserted goal) ∨
      ∃ goal original, (goal, original) ∈ old.entries ∧ (pos, located) ∈ weaving.images goal := by
  obtain ⟨run, size⟩ := decode_eq_ok.1 decoded'
  rw [size] at run
  have member := Array.mem_toList_iff.2 member
  rw [run.unique (woven.runs_whole decoded)] at member
  rcases List.mem_append.1 member with inside | behind
  · obtain ⟨⟨goal, original⟩, known, inside⟩ := List.mem_flatMap.1 inside
    have known := Array.mem_toList_iff.1 known
    rcases List.mem_append.1 inside with inserted | image
    · exact .inl ⟨goal, .inr ⟨original, known⟩, inserted⟩
    · exact .inr ⟨goal, original, known, image⟩
  · exact .inl ⟨old.next, .inl rfl, behind⟩

theorem Woven.mem_inserted (decoded : Listing.decode base = .ok old)
    (woven : Woven old weaving code) (decoded' : Listing.decode code = .ok now) {goal : Nat}
    (boundary : old.IsBoundary goal) (member : (pos, located) ∈ weaving.inserted goal) :
    (pos, located) ∈ now.entries := by
  obtain ⟨run, size⟩ := decode_eq_ok.1 decoded'
  rw [size] at run
  rw [← Array.mem_toList_iff, run.unique (woven.runs_whole decoded)]
  rcases boundary with rfl | ⟨original, known⟩
  · exact List.mem_append_right _ member
  · refine List.mem_append_left _ (List.mem_flatMap.2 ⟨_, Array.mem_toList_iff.2 known, ?_⟩)
    exact List.mem_append_left _ member

theorem Woven.mem_images (decoded : Listing.decode base = .ok old) (woven : Woven old weaving code)
    (decoded' : Listing.decode code = .ok now) {goal : Nat} {original : Located}
    (known : (goal, original) ∈ old.entries) (member : (pos, located) ∈ weaving.images goal) :
    (pos, located) ∈ now.entries := by
  obtain ⟨run, size⟩ := decode_eq_ok.1 decoded'
  rw [size] at run
  rw [← Array.mem_toList_iff, run.unique (woven.runs_whole decoded)]
  refine List.mem_append_left _ (List.mem_flatMap.2 ⟨_, Array.mem_toList_iff.2 known, ?_⟩)
  exact List.mem_append_right _ member

theorem Woven.enter_eq_place (woven : Woven old weaving code) (boundary : old.IsBoundary pos)
    (empty : weaving.inserted pos = []) : weaving.enter pos = weaving.place pos := by
  rcases (woven.inserted boundary).inv with ⟨_, same⟩ | ⟨_, _, listed, _⟩
  · exact same
  · rw [empty] at listed
    cases listed

theorem Woven.reads_plain (woven : Woven old weaving code) {bytes : List UInt8}
    (member : (pos, located) ∈ old.entries) (plain : located.instruction = .plain bytes) :
    Reads code (weaving.place pos) ⟨bytes.length, .plain bytes⟩ ∧
      weaving.enter (pos + located.length) = weaving.place pos + bytes.length := by
  have image := woven.image member
  have body := woven.body member
  rw [plain] at image
  generalize weaving.images pos = images at image body
  cases image
  rcases body.inv with ⟨absurd, _⟩ | ⟨_, _, same, reads, rest⟩
  · cases absurd
  · cases same
    rcases rest.inv with ⟨_, ended⟩ | ⟨_, _, absurd, _⟩
    · exact ⟨reads, ended.symm⟩
    · cases absurd

theorem Woven.enter_ne (woven : Woven old weaving code) (boundary : old.IsBoundary pos)
    (boundary' : old.IsBoundary pos') {here : Nat} (low : weaving.enter pos < here)
    (high : here ≤ weaving.place pos) : here ≠ weaving.enter pos' := by
  rcases Nat.lt_trichotomy pos pos' with less | rfl | greater
  · have := woven.ordered boundary boundary' less
    omega
  · exact Nat.ne_of_gt low
  · have := woven.enter_lt boundary' boundary greater
    omega

theorem Woven.enter_ne_image (decoded : Listing.decode base = .ok old)
    (woven : Woven old weaving code) (member : (pos, located) ∈ old.entries)
    (boundary' : old.IsBoundary pos') {here : Nat} (low : weaving.place pos < here)
    (high : here < weaving.enter (pos + located.length)) : here ≠ weaving.enter pos' := by
  have boundary : old.IsBoundary pos := .inr ⟨located, member⟩
  rcases Nat.lt_or_ge pos pos' with less | above
  · have behind := behind_le_of_lt decoded member boundary' less
    rcases Nat.lt_or_eq_of_le behind with further | same
    · have := woven.enter_lt (isBoundary_behind decoded member) boundary' further
      omega
    · rw [← same]
      omega
  · rcases Nat.lt_or_eq_of_le above with further | same
    · have := woven.enter_lt boundary' boundary further
      have := woven.enter_le_place boundary
      omega
    · have := woven.enter_le_place boundary
      rw [same]
      omega

theorem Relocation.land_eq_enter {moved : Relocation} (inclusive : moved.gap.exclusive = false)
    (pos : Nat) : moved.land pos = moved.enter pos := by
  simp only [land, enter, inclusive, and_true]

section Through

variable {moved : Relocation} {images : Nat → List (Nat × Located)} {here : Nat}

theorem Woven.nopsAt_eq_nil (woven : Woven old weaving code) (boundary : old.IsBoundary here)
    (offset : moved.gap.offset = weaving.enter here) (boundary' : old.IsBoundary pos)
    (different : pos ≠ here) : moved.nopsAt (weaving.enter pos) = [] := by
  rw [Relocation.nopsAt, if_neg]
  rw [offset]
  intro same
  exact different (woven.enter_inj boundary' boundary same)

theorem Woven.inserted_through (decoded : Listing.decode base = .ok old)
    (woven : Woven old weaving code) (decoded' : Listing.decode code = .ok now)
    (opened : Opened now moved code') (boundary : old.IsBoundary here)
    (offset : moved.gap.offset = weaving.enter here)
    (each : ∀ {pos : Nat} {located : Located}, (pos, located) ∈ now.entries →
      Runs code' (moved.place pos) (images pos) (moved.enter (pos + located.length)))
    (known : old.IsBoundary pos) :
    Runs code' (moved.enter (weaving.enter pos)) ((weaving.through moved images).inserted pos)
      (moved.place (weaving.place pos)) := by
  have nops := opened.runs_nopsAt (weaving.enter pos)
  have inserted := woven.inserted known
  apply nops.append
  by_cases empty : weaving.inserted pos = []
  · rw [empty] at inserted ⊢
    rcases inserted.inv with ⟨_, same⟩ | ⟨_, _, absurd, _⟩
    · show Runs code' _ [] (moved.place (weaving.place pos))
      rw [same]
      exact .done _
    · cases absurd
  · have less := inserted.lt empty
    have outside : weaving.place pos ≠ moved.gap.offset := by
      rw [offset]
      exact woven.enter_ne known boundary less (Nat.le_refl _)
    have run := opened.runs_images_behind images inserted empty
      (fun entry member => each (woven.mem_inserted decoded decoded' known member))
      fun entry member behind => by
        rw [offset]
        have := (inserted.mem_bounds (show (entry.1, entry.2) ∈ _ from member)).2.2
        exact woven.enter_ne known boundary behind (by omega)
    rwa [Relocation.enter, if_neg outside] at run

theorem Woven.skip_through (decoded : Listing.decode base = .ok old)
    (woven : Woven old weaving code) (decoded' : Listing.decode code = .ok now)
    (opened : Opened now moved code') (inclusive : moved.gap.exclusive = false)
    (boundary : old.IsBoundary here) (offset : moved.gap.offset = weaving.enter here)
    (each : ∀ {pos : Nat} {located : Located}, (pos, located) ∈ now.entries →
      Runs code' (moved.place pos) (images pos) (moved.enter (pos + located.length)))
    (member : (pos, located) ∈ old.entries) {opcode jump : Opcode} {target : Int}
    (pair : weaving.images pos = [(weaving.place pos, ⟨3, .branch opcode (weaving.place pos + 8)⟩),
      (weaving.place pos + 3, ⟨5, .wideBranch jump target⟩)]) :
    images (weaving.place pos) = [(moved.place (weaving.place pos),
        ⟨3, .branch opcode (moved.place (weaving.place pos) + 8)⟩)] ∧
      moved.place (weaving.place pos + 3) = moved.place (weaving.place pos) + 3 := by
  have body := woven.body member
  rw [pair] at body
  have listed (entry : Nat × Located) (known : entry ∈ weaving.images pos) : entry ∈ now.entries :=
    woven.mem_images decoded decoded' member known
  rw [pair] at listed
  have first := listed _ List.mem_cons_self
  have second := listed _ (List.mem_cons_of_mem _ List.mem_cons_self)
  have away : moved.gap.offset ≠ weaving.place pos + 3 := by
    rw [offset]
    refine (woven.enter_ne_image decoded member boundary ?_ ?_).symm
    · omega
    · have := (body.mem_bounds (List.mem_cons_of_mem _ List.mem_cons_self)).2.2
      dsimp only at this
      omega
  exact (each first).stays (opened.skip inclusive first second away) away

theorem Woven.through (decoded : Listing.decode base = .ok old) (woven : Woven old weaving code)
    (decoded' : Listing.decode code = .ok now) (opened : Opened now moved code')
    (inclusive : moved.gap.exclusive = false) (boundary : old.IsBoundary here)
    (offset : moved.gap.offset = weaving.enter here)
    (each : ∀ {pos : Nat} {located : Located}, (pos, located) ∈ now.entries →
      Image (moved.Lands now) (moved.place pos) located.instruction (images pos) ∧
        Runs code' (moved.place pos) (images pos) (moved.enter (pos + located.length))) :
    Woven old (weaving.through moved images) code' := by
  have runs {pos : Nat} {located : Located} (member : (pos, located) ∈ now.entries) :=
    (each member).2
  refine ⟨?_, ?_, ?_, ?_, ?_, ?_⟩
  · show moved.enter (weaving.enter 0) = 0
    rw [woven.first, opened.first]
  · show moved.place (weaving.place old.next) = code'.size
    rw [woven.stop, ← opened.stop, (decode_eq_ok.1 decoded').2]
  · intro pos pos' first second less
    exact opened.ordered (woven.boundary_place decoded decoded' first)
      (woven.boundary_enter decoded decoded' second) (woven.ordered first second less)
  · intro pos known
    exact woven.inserted_through decoded decoded' opened boundary offset runs known
  · intro pos located member
    apply (woven.image member).trans
    · intro entry listed
      exact (each (woven.mem_images decoded decoded' member listed)).1
    · intro target middle landed first second goal known same
      obtain ⟨through, _, rfl, rfl⟩ := second
      have entered := first goal known same
      rw [Relocation.land_eq_enter inclusive, Int.ofNat_inj.1 entered]
      rfl
    · intro opcode jump target pair
      exact woven.skip_through decoded decoded' opened inclusive boundary offset runs member pair
  · intro pos located member
    have body := woven.body member
    have run := opened.runs_images_behind images body (woven.image member).ne_nil
      (fun entry listed => runs (woven.mem_images decoded decoded' member listed))
      fun entry listed behind => by
        rw [offset]
        obtain ⟨reads, _, ends⟩ := body.mem_bounds (show (entry.1, entry.2) ∈ _ from listed)
        have := reads.length_pos
        exact woven.enter_ne_image decoded member boundary behind (by omega)
    exact run

end Through

theorem Woven.overwritten (decoded : Listing.decode base = .ok old) (woven : Woven old weaving code)
    (boundary : old.IsBoundary pos) (size : code'.size = code.size)
    (front : SameOn code code' 0 (weaving.enter pos))
    (back : SameOn code code' (weaving.place pos) code.size) {entries : List (Nat × Located)}
    (run : Runs code' (weaving.enter pos) entries (weaving.place pos)) :
    Woven old (weaving.insert pos entries) code' := by
  refine ⟨woven.first, woven.stop.trans size.symm, woven.ordered, ?_, woven.image, ?_⟩
  · intro pos' boundary'
    by_cases here : pos' = pos
    · subst here
      rw [Weaving.inserted_insert]
      exact run
    · rw [Weaving.inserted_insert_of_ne here]
      apply (woven.inserted boundary').transfer
      intro i low high
      rcases Nat.lt_or_gt_of_ne here with less | greater
      · have := woven.ordered boundary' boundary less
        exact front i (Nat.zero_le _) (by omega)
      · have := woven.ordered boundary boundary' greater
        exact back i (by omega) (Nat.lt_of_lt_of_le high (woven.place_le_size decoded boundary'))
  · intro pos' located member
    have boundary' := isBoundary_behind decoded member
    apply (woven.body member).transfer
    intro i low high
    rcases Nat.lt_or_ge pos' pos with less | above
    · have behind := behind_le_of_lt decoded member boundary less
      refine front i (Nat.zero_le _) (Nat.lt_of_lt_of_le high ?_)
      rcases Nat.lt_or_eq_of_le behind with further | same
      · exact Nat.le_of_lt (woven.enter_lt boundary' boundary further)
      · exact Nat.le_of_eq (congrArg weaving.enter same)
    · have start : weaving.place pos ≤ weaving.place pos' := by
        rcases Nat.lt_or_eq_of_le above with further | same
        · have := woven.ordered boundary (.inr ⟨located, member⟩) further
          have := woven.enter_le_place (.inr ⟨located, member⟩)
          omega
        · exact Nat.le_of_eq (congrArg weaving.place same)
      refine back i (Nat.le_trans start low) (Nat.lt_of_lt_of_le high ?_)
      exact Nat.le_trans (woven.enter_le_place boundary') (woven.place_le_size decoded boundary')

end Woven

end ClassSplice.Code
