import ClassSplice.Proofs.Layout.Sequence

/-!
Code that is inserted behind a cursor. What lies ahead of the cursor are instructions of a body in
whatever form, and nothing else (`Remaining`); where the cursor stands between the halves of a widened
branch, the jump comes first (`Facing`).

Main statements: `Facing.advances` (where a step of the cursor leads) and `Cursor.Inserts.facing` (an
insertion moves what lies ahead as a whole).
-/

namespace ClassSplice.Code

def Widened (code : Array UInt8) (opcode : Opcode) (place : Nat) : Prop :=
  ∃ (inverse : Opcode) (goal : Int), opcode.Opposite inverse ∧
    Reads code place ⟨3, .branch inverse (place + 8)⟩ ∧
    Reads code (place + 3) ⟨5, .wideBranch Opcode.gotoW goal⟩

inductive Remaining (code : Array UInt8) : Nat → List Nat → List Instruction → Prop
  | done : Remaining code code.size [] []
  | step {pos stop : Nat} {places : List Nat} {instruction : Instruction}
      {instructions : List Instruction} {image : List (Nat × Located)}
      (is : Image (fun _ _ => True) pos instruction image) (run : Runs code pos image stop)
      (rest : Remaining code stop places instructions) :
      Remaining code pos (pos :: places) (instruction :: instructions)

section Remaining

variable {code code' : Array UInt8} {pos : Nat} {places : List Nat} {instructions : List Instruction}

theorem Remaining.le_size (remaining : Remaining code pos places instructions) : pos ≤ code.size := by
  induction remaining with
  | done => exact Nat.le_refl _
  | step _ run _ ih => exact Nat.le_trans run.le ih

theorem Remaining.transfer (remaining : Remaining code pos places instructions)
    (size : code'.size = code.size) (same : SameOn code code' pos code.size) :
    Remaining code' pos places instructions := by
  induction remaining with
  | done => exact size ▸ .done
  | step is run rest ih =>
      have := run.le
      have := rest.le_size
      refine .step is (run.transfer fun i low high => same i low (by omega)) (ih fun i low high => ?_)
      exact same i (by omega) high

theorem Remaining.places_ge (remaining : Remaining code pos places instructions) :
    ∀ place ∈ places, pos ≤ place := by
  induction remaining with
  | done => exact fun _ member => absurd member List.not_mem_nil
  | step is run rest ih =>
      intro place member
      rcases List.mem_cons.1 member with rfl | later
      · exact Nat.le_refl _
      · exact Nat.le_trans run.le (ih place later)

theorem Remaining.opened {layout : Layout} (computed : layout.Computed code)
    (emitted : layout.emit = .ok code') (remaining : Remaining code pos places instructions)
    (boundary : layout.listing.IsBoundary pos) (behind : layout.gap.offset < pos) :
    Remaining code' (layout.relocation.place pos) (places.map layout.relocation.place)
      instructions := by
  have opened := computed.opened emitted
  have decoded := computed.decoded
  obtain ⟨images, each⟩ := opened.exists_images decoded
  have enter_eq {pos : Nat} (behind : layout.gap.offset < pos) :
      layout.relocation.enter pos = layout.relocation.place pos :=
    if_neg (Nat.ne_of_gt behind)
  induction remaining with
  | done =>
      rw [← (decode_eq_ok.1 decoded).2, opened.stop]
      exact .done
  | @step pos stop places instruction instructions image is run rest ih =>
      obtain ⟨listed, boundary'⟩ := boundary.runs decoded run
      have further : layout.gap.offset < stop := Nat.lt_of_lt_of_le behind run.le
      have moved := opened.runs_images_of_ne images run (fun entry member => (each (listed _ member)).2)
        fun entry member => by
          have := (run.mem_bounds (show (entry.1, entry.2) ∈ image from member)).2.1
          exact Nat.ne_of_gt (Nat.lt_of_lt_of_le behind this)
      rw [enter_eq behind, enter_eq further] at moved
      refine .step ?_ moved (ih boundary' further)
      refine is.trans (fun entry member => (each (listed entry member)).1) (fun _ _ _ _ _ => trivial) ?_
      -- The gap lies in front of both halves of a widened branch, so the first one is not widened again.
      rintro opcode jump target rfl
      have first := listed _ List.mem_cons_self
      have second := listed _ (List.mem_cons_of_mem _ List.mem_cons_self)
      have away : layout.gap.offset ≠ pos + 3 := by omega
      have stays := computed.runs_skip emitted (fun _ => by omega) first second away
      exact (each first).2.stays stays away

theorem Remaining.of_runs {entries : List (Nat × Located)}
    (run : Runs code pos entries code.size) :
    Remaining code pos (entries.map Prod.fst) (entries.map fun entry => entry.2.instruction) := by
  generalize whole : code.size = stop at run
  induction run with
  | done => exact whole ▸ .done
  | step reads rest ih =>
      exact .step (.refl reads.length_eq fun _ => trivial) (.single reads) (ih whole)

end Remaining

/-- What a cursor faces that has come to as many instructions of a body: the rest of them, or first the
jump of the last. -/
inductive Facing (code : Array UInt8) (places : List Nat) (instructions : List Instruction) :
    Nat → Nat → Nat → Prop
  | whole {count pos : Nat}
      (rest : Remaining code pos (places.drop count) (instructions.drop count)) :
      Facing code places instructions 0 count pos
  | half {count place : Nat} {opcode : Opcode} {target : Int}
      (known : places[count]? = some place)
      (original : instructions[count]? = some (.branch opcode target))
      (widened : Widened code opcode place)
      (rest : Remaining code (place + 8) (places.drop (count + 1)) (instructions.drop (count + 1))) :
      Facing code places instructions 1 (count + 1) (place + 3)

theorem drop_eq_cons {α : Type} {xs rest : List α} {count : Nat} {x : α}
    (dropped : xs.drop count = x :: rest) : xs[count]? = some x ∧ xs.drop (count + 1) = rest := by
  constructor
  · rw [← List.head?_drop, dropped]
    rfl
  · rw [← List.tail_drop, dropped]
    rfl

theorem Image.single_or_pair {Lands : Int → Int → Prop} {pos : Nat} {instruction : Instruction}
    {image : List (Nat × Located)} (is : Image Lands pos instruction image) :
    (∃ located, image = [(pos, located)]) ∨
      ∃ (opcode inverse : Opcode) (target goal : Int), instruction = .branch opcode target ∧
        opcode.Opposite inverse ∧ image = [(pos, ⟨3, .branch inverse (pos + 8)⟩),
          (pos + 3, ⟨5, .wideBranch Opcode.gotoW goal⟩)] := by
  cases is with
  | conditional opposite landed => exact .inr ⟨_, _, _, _, rfl, opposite, rfl⟩
  | plain | branch | goto | jsr | wideBranch | tableSwitch | lookupSwitch => exact .inl ⟨_, rfl⟩

/-- A cursor that faces something steps over an instruction of the body, or over the jump of the last
one; otherwise it is at the end. -/
inductive Advances (code : Array UInt8) (places : List Nat) (instructions : List Instruction)
    (pos : Nat) : Nat → Nat → Prop
  | ended {count : Nat} (here : pos = code.size) (all : instructions.length ≤ count) :
      Advances code places instructions pos 0 count
  | original {count pending stop : Nat} {located : Located} {instruction : Instruction}
      {image : List (Nat × Located)} (reads : Reads code pos located)
      (known : places[count]? = some pos) (original : instructions[count]? = some instruction)
      (is : Image (fun _ _ => True) pos instruction image) (run : Runs code pos image stop)
      (wide : pending ≠ 0 → ∃ opcode target, instruction = .branch opcode target ∧
        Widened code opcode pos)
      (pending_le : pending ≤ 1)
      (facing : Facing code places instructions pending (count + 1) (pos + located.length)) :
      Advances code places instructions pos 0 count
  | jump {count place : Nat} {located : Located} {opcode : Opcode} {target : Int}
      (reads : Reads code pos located) (known : places[count]? = some place)
      (original : instructions[count]? = some (.branch opcode target))
      (widened : Widened code opcode place) (here : pos = place + 3)
      (further : ∀ later ∈ places.drop (count + 1), pos < later)
      (facing : Facing code places instructions 0 (count + 1) (pos + located.length)) :
      Advances code places instructions pos 1 (count + 1)

theorem Facing.advances {code : Array UInt8} {places : List Nat} {instructions : List Instruction}
    {pos pending count : Nat} (facing : Facing code places instructions pending count pos) :
    Advances code places instructions pos pending count := by
  cases facing with
  | whole rest =>
      generalize ahead : places.drop count = places' at rest
      generalize behind : instructions.drop count = instructions' at rest
      cases rest with
      | done => exact .ended rfl (List.drop_eq_nil_iff.1 behind)
      | @step _ stop places' instruction instructions' image is run rest =>
          obtain ⟨known, rfl⟩ := drop_eq_cons ahead
          obtain ⟨original, rfl⟩ := drop_eq_cons behind
          rcases is.single_or_pair with
            ⟨located, rfl⟩ | ⟨opcode, inverse, target, goal, rfl, opposite, rfl⟩
          · obtain ⟨_, reads, rfl⟩ := runs_singleton.1 run
            exact .original reads known original is run (fun none => absurd rfl none) (Nat.zero_le 1)
              (.whole rest)
          · cases run with
            | step first jump =>
                obtain ⟨_, second, rfl⟩ := runs_singleton.1 jump
                have widened : Widened code opcode pos := ⟨inverse, goal, opposite, first, second⟩
                exact .original first known original is (.step first jump)
                  (fun _ => ⟨opcode, target, rfl, widened⟩) (Nat.le_refl 1)
                  (.half known original widened rest)
  | @half count place opcode target known original widened rest =>
      obtain ⟨inverse, goal, opposite, first, second⟩ := widened
      refine .jump second known original ⟨inverse, goal, opposite, first, second⟩ rfl ?_ (.whole rest)
      intro later member
      have := rest.places_ge later member
      omega

def Whole (bytes : List UInt8) : Prop :=
  ∃ listing, Listing.decode bytes.toArray = .ok listing ∧
    ∀ entry ∈ listing.entries, entry.2.instruction.isSwitch = false

theorem Cursor.Overwritten.decode {cursor next : Cursor} {start : Nat} {bytes : List UInt8}
    {old : Listing} (written : cursor.Overwritten next start bytes) (whole : Whole bytes)
    (decoded : Listing.decode cursor.code.bytes = .ok old) (first : old.IsBoundary start)
    (last : old.IsBoundary (start + bytes.length)) :
    ∃ new, Listing.decode next.code.bytes = .ok new ∧ ∀ {pos}, old.IsBoundary pos →
      pos ≤ start ∨ start + bytes.length ≤ pos → new.IsBoundary pos := by
  obtain ⟨listing, own, straight⟩ := whole
  obtain ⟨ownRun, ownSize⟩ := decode_eq_ok.1 own
  obtain ⟨moved, inside⟩ := ownRun.elsewhere
    (fun entry member => straight entry (Array.mem_toList_iff.1 member)) written.held
  rw [ownSize, List.size_toArray, Nat.add_zero] at inside
  obtain ⟨front, _, _, before, _⟩ := (isBoundary_iff_runs decoded).1 first
  obtain ⟨_, back, _, upTo, behind⟩ := (isBoundary_iff_runs decoded).1 last
  rw [(decode_eq_ok.1 decoded).2] at behind
  have before' := before.transfer written.front
  have behind' := behind.transfer written.back
  have run := (before'.append inside).append behind'
  rw [← written.size] at run
  refine ⟨_, decode_of_runs run, fun {pos} boundary side => ?_⟩
  obtain ⟨front', back', _, reached, further⟩ := (isBoundary_iff_runs decoded).1 boundary
  rw [(decode_eq_ok.1 decoded).2] at further
  rcases side with low | high
  · obtain ⟨between, _, rest⟩ := before.cancel reached low
    have reached' := reached.transfer fun i _ below => written.front i (Nat.zero_le _) (by omega)
    have rest' := rest.transfer fun i _ below => written.front i (Nat.zero_le _) below
    exact isBoundary_of_runs (decode_of_runs run) reached' ((rest'.append inside).append behind')
      written.size.symm
  · obtain ⟨between, _, rest⟩ := reached.cancel upTo high
    have rest' := rest.transfer fun i above below =>
      written.back i above (Nat.lt_of_lt_of_le below further.le)
    have further' := further.transfer fun i above below =>
      written.back i (Nat.le_trans high above) below
    exact isBoundary_of_runs (decode_of_runs run) ((before'.append inside).append rest') further'
      written.size.symm

structure Cursor.Inserts (cursor cursor' : Cursor) (offset : Nat) (bytes : List UInt8) (layout : Layout)
    (middle : Cursor) : Prop where
  computed : layout.Computed cursor.code.bytes
  offset : layout.gap.offset = offset
  length : layout.gap.length = bytes.length
  emitted : layout.emit = .ok middle.code.bytes
  pos : layout.relocate cursor.pos = .ok middle.pos
  written : middle.Overwritten cursor' layout.relocation.start bytes

section Inserts

variable {cursor cursor' middle : Cursor} {offset pos pending count : Nat} {bytes : List UInt8}
  {layout : Layout} {places : List Nat} {instructions : List Instruction}
  (inserts : cursor.Inserts cursor' offset bytes layout middle)

include inserts

theorem Cursor.Inserts.opened : Code.Opened layout.listing layout.relocation middle.code.bytes :=
  inserts.computed.opened inserts.emitted

theorem Cursor.Inserts.boundary : layout.listing.IsBoundary offset :=
  inserts.offset ▸ inserts.opened.boundary

theorem Cursor.Inserts.place_offset :
    layout.relocation.place offset = layout.relocation.start + bytes.length := by
  rw [← inserts.offset, ← inserts.length]
  exact inserts.opened.behind

theorem Cursor.Inserts.decode (whole : Whole bytes) :
    ∃ new, Listing.decode cursor'.code.bytes = .ok new ∧ ∀ {pos}, layout.listing.IsBoundary pos →
      new.IsBoundary (layout.relocation.enter pos) ∧ new.IsBoundary (layout.relocation.place pos) := by
  have opened := inserts.opened
  have behind := inserts.place_offset
  have entered : layout.relocation.enter offset = layout.relocation.start := if_pos inserts.offset.symm
  have own := inserts.boundary
  obtain ⟨between, _, decoded, _⟩ := opened.decode inserts.computed.decoded
  obtain ⟨first, last⟩ := opened.boundaries inserts.computed.decoded decoded own
  rw [entered] at first
  rw [behind] at last
  obtain ⟨new, decoded', kept⟩ := inserts.written.decode whole decoded first last
  refine ⟨new, decoded', fun {pos} boundary => ?_⟩
  obtain ⟨enters, stands⟩ := opened.boundaries inserts.computed.decoded decoded boundary
  have ordered := opened.enter_le_place pos
  rcases Nat.lt_trichotomy pos offset with less | rfl | greater
  · have := opened.ordered boundary own less
    exact ⟨kept enters (.inl (by omega)), kept stands (.inl (by omega))⟩
  · exact ⟨kept enters (.inl (by omega)), kept stands (.inr (by omega))⟩
  · have := opened.ordered own boundary greater
    exact ⟨kept enters (.inr (by omega)), kept stands (.inr (by omega))⟩

theorem Cursor.Inserts.place_eq {pos : Nat} (behind : offset < pos) :
    layout.relocation.enter pos = layout.relocation.place pos ∧
      layout.relocation.land pos = layout.relocation.place pos := by
  have different : pos ≠ layout.relocation.gap.offset := inserts.offset ▸ Nat.ne_of_gt behind
  exact ⟨if_neg different, if_neg fun both => different both.1⟩

theorem Cursor.Inserts.same (behind : offset ≤ pos) (boundary : layout.listing.IsBoundary pos) :
    SameOn middle.code.bytes cursor'.code.bytes (layout.relocation.place pos)
      middle.code.bytes.size := by
  intro i above below
  refine inserts.written.back i (Nat.le_trans ?_ above) below
  rw [← inserts.place_offset]
  exact inserts.opened.place_mono inserts.boundary boundary behind

theorem Cursor.Inserts.remaining (behind : offset < pos) (boundary : layout.listing.IsBoundary pos)
    (remaining : Remaining cursor.code.bytes pos places instructions) :
    Remaining cursor'.code.bytes (layout.relocation.place pos)
      (places.map layout.relocation.place) instructions :=
  (remaining.opened inserts.computed inserts.emitted boundary (inserts.offset ▸ behind)).transfer
    inserts.written.size (inserts.same (Nat.le_of_lt behind) boundary)

theorem Cursor.Inserts.widened {opcode : Opcode} {place : Nat} (behind : offset < place + 3)
    (boundary : layout.listing.IsBoundary place)
    (widened : Widened cursor.code.bytes opcode place) :
    Widened cursor'.code.bytes opcode (layout.relocation.place place) ∧
      layout.relocation.place (place + 3) = layout.relocation.place place + 3 ∧
      layout.relocation.place (place + 8) = layout.relocation.place place + 8 ∧
      layout.listing.IsBoundary (place + 8) := by
  obtain ⟨inverse, goal, opposite, first, second⟩ := widened
  have decoded := inserts.computed.decoded
  obtain ⟨listed, next⟩ := boundary.runs decoded (Runs.append (.single first) (.single second))
  have first := listed _ List.mem_cons_self
  have second := listed _ (List.mem_cons_of_mem _ List.mem_cons_self)
  have front : offset ≤ place := by
    by_contra inside
    have := behind_le_of_lt decoded first inserts.boundary (Nat.lt_of_not_le inside)
    dsimp only at this
    omega
  have off : layout.gap.offset = offset := inserts.offset
  have away : layout.gap.offset ≠ place + 3 := by omega
  have stays := inserts.computed.runs_skip inserts.emitted (fun _ => by omega) first second away
  obtain ⟨_, jumps⟩ := stays.stays stays away
  obtain ⟨image, is, run⟩ := inserts.opened.image second
  dsimp only at is run
  cases is with
  | @wideBranch _ _ moved landed =>
      obtain ⟨_, readsFirst, _⟩ := runs_singleton.1 stays
      obtain ⟨_, readsSecond, ends⟩ := runs_singleton.1 run
      have same := inserts.same front boundary
      rw [jumps] at readsSecond ends
      rw [(inserts.place_eq (show offset < place + 3 + 5 by omega)).1] at ends
      have transfer {pos : Nat} {located : Located} (above : layout.relocation.place place ≤ pos)
          (reads : Reads middle.code.bytes pos located) :
          Reads cursor'.code.bytes pos located :=
        reads.transfer fun i low high =>
          same i (Nat.le_trans above low) (Nat.lt_of_lt_of_le high reads.le_size)
      exact ⟨⟨inverse, moved, opposite, transfer (Nat.le_refl _) readsFirst,
        transfer (Nat.le_add_right _ _) readsSecond⟩, jumps, ends, next⟩

theorem Cursor.Inserts.facing (behind : offset < pos) (boundary : layout.listing.IsBoundary pos)
    (stands : ∀ place ∈ places, layout.listing.IsBoundary place)
    (facing : Facing cursor.code.bytes places instructions pending count pos) :
    Facing cursor'.code.bytes (places.map layout.relocation.place) instructions pending count
      (layout.relocation.place pos) := by
  cases facing with
  | whole rest =>
      refine .whole ?_
      rw [← List.map_drop]
      exact inserts.remaining behind boundary rest
  | @half count place opcode target known original widened rest =>
      obtain ⟨widened, jump, next, further⟩ :=
        inserts.widened behind (stands place (List.mem_of_getElem? known)) widened
      rw [jump]
      refine .half (by rw [List.getElem?_map, known]; rfl) original widened ?_
      rw [← List.map_drop, ← next]
      exact inserts.remaining (by omega) further rest

end Inserts

end ClassSplice.Code
