import ClassSplice.Proofs.Layout.Weaving

namespace ClassSplice.Code

namespace Weaving

def Calls (weaving : Weaving) (pos : Nat) (goal : Int) : Prop :=
  weaving.inserted pos = [(weaving.enter pos, ⟨3, .branch Opcode.jsr goal⟩)] ∨
    weaving.inserted pos = [(weaving.enter pos, ⟨5, .wideBranch Opcode.jsrW goal⟩)]

def Blank (weaving : Weaving) (pos count : Nat) : Prop :=
  (weaving.inserted pos).map Prod.snd = List.replicate count ⟨1, .plain [Opcode.nop]⟩

theorem Calls.unique {weaving : Weaving} {pos : Nat} {goal goal' : Int}
    (calls : weaving.Calls pos goal) (calls' : weaving.Calls pos goal') : goal = goal' := by
  rcases calls with same | same
  · rcases calls' with same' | same'
    · cases same.symm.trans same'
      rfl
    · cases same.symm.trans same'
  · rcases calls' with same' | same'
    · cases same.symm.trans same'
    · cases same.symm.trans same'
      rfl

theorem Calls.ne_nil {weaving : Weaving} {pos : Nat} {goal : Int} (calls : weaving.Calls pos goal) :
    weaving.inserted pos ≠ [] := by
  rcases calls with same | same
  · rw [same]
    exact List.cons_ne_nil _ _
  · rw [same]
    exact List.cons_ne_nil _ _

theorem Calls.not_plain {weaving : Weaving} {pos here length : Nat} {goal : Int}
    {bytes : List UInt8} (calls : weaving.Calls pos goal) :
    (here, ⟨length, .plain bytes⟩) ∉ weaving.inserted pos := by
  intro member
  rcases calls with same | same
  · rw [same] at member
    cases List.mem_singleton.1 member
  · rw [same] at member
    cases List.mem_singleton.1 member

end Weaving

/-- An entry of the exception table whose offsets have moved like targets of jumps. -/
structure Handler.Carried (weaving : Weaving) (before after : Handler) : Prop where
  start : after.start.toNat = weaving.enter before.start.toNat
  stop : after.stop.toNat = weaving.enter before.stop.toNat
  target : after.target.toNat = weaving.enter before.target.toNat
  catchType : after.catchType = before.catchType

structure Rewoven (old : Listing) (here : Nat) (weaving weaving' : Weaving) (before after : Code) :
    Prop where
  woven : Woven old weaving' after.bytes
  blank : ∀ {pos : Nat}, old.IsBoundary pos → pos ≠ here → weaving.inserted pos = [] →
    weaving'.inserted pos = []
  calls : ∀ {pos : Nat} {goal : Int}, old.IsBoundary pos → pos ≠ here → weaving.Calls pos goal →
    ∃ goal', weaving'.Calls pos goal' ∧ ∀ {other : Nat}, old.IsBoundary other →
      (goal' = weaving'.enter other ↔ goal = weaving.enter other)
  handlers : ∀ {table : HandlerTable},
    List.Forall₂ (Handler.Carried weaving) table before.handlers →
      List.Forall₂ (Handler.Carried weaving') table after.handlers
  forward : ∀ {pos : Nat}, old.IsBoundary pos → weaving.enter pos ≤ weaving'.enter pos
  bounded : before.bytes.size ≤ maxLength → after.bytes.size ≤ maxLength

theorem Rewoven.trans {old : Listing} {here : Nat} {one other third : Weaving}
    {before between after : Code} (first : Rewoven old here one other before between)
    (second : Rewoven old here other third between after) :
    Rewoven old here one third before after := by
  refine ⟨second.woven, ?_, ?_, ?_, ?_, ?_⟩
  · intro pos boundary different empty
    exact second.blank boundary different (first.blank boundary different empty)
  · intro pos goal boundary different calls
    obtain ⟨middle, calls, leads⟩ := first.calls boundary different calls
    obtain ⟨goal', calls, leads'⟩ := second.calls boundary different calls
    exact ⟨goal', calls, fun known => (leads' known).trans (leads known)⟩
  · intro table carried
    exact second.handlers (first.handlers carried)
  · intro pos boundary
    exact Nat.le_trans (first.forward boundary) (second.forward boundary)
  · intro bounded
    exact second.bounded (first.bounded bounded)

section Through

variable {base : Array UInt8} {old now : Listing} {weaving : Weaving} {moved : Relocation}
  {images : Nat → List (Nat × Located)} {code : Array UInt8} {pos here : Nat}

theorem map_flatMap_nops {entries : List (Nat × Located)} {Lands : Int → Int → Prop}
    {place : Nat → Nat}
    (nops : ∀ entry ∈ entries, entry.2 = ⟨1, .plain [Opcode.nop]⟩)
    (each : ∀ entry ∈ entries, Image Lands (place entry.1) entry.2.instruction (images entry.1)) :
    (entries.flatMap fun entry => images entry.1).map Prod.snd = entries.map Prod.snd := by
  induction entries with
  | nil => rfl
  | cons entry entries ih =>
      have image := each entry List.mem_cons_self
      have same := nops entry List.mem_cons_self
      rw [same] at image
      rw [List.flatMap_cons, List.map_append, List.map_cons, same]
      rw [ih (fun entry member => nops entry (List.mem_cons_of_mem _ member)) fun entry member =>
        each entry (List.mem_cons_of_mem _ member)]
      generalize images entry.1 = image' at image ⊢
      cases image
      rfl

theorem map_nopsFrom (start count : Nat) :
    (nopsFrom start count).map Prod.snd = List.replicate count ⟨1, .plain [Opcode.nop]⟩ := by
  induction count generalizing start with
  | zero => rfl
  | succ count ih => exact congrArg _ (ih (start + 1))

theorem Weaving.Blank.through {count : Nat} (blank : weaving.Blank here count)
    (offset : moved.gap.offset = weaving.enter here)
    (each : ∀ entry ∈ weaving.inserted here,
      Image (moved.Lands now) (moved.place entry.1) entry.2.instruction (images entry.1)) :
    (weaving.through moved images).Blank here (moved.gap.length + count) := by
  have nops : ∀ entry ∈ weaving.inserted here, entry.2 = ⟨1, .plain [Opcode.nop]⟩ := by
    intro entry member
    have member := List.mem_map_of_mem (f := Prod.snd) member
    rw [show (weaving.inserted here).map Prod.snd = _ from blank] at member
    exact List.eq_of_mem_replicate member
  show (moved.nopsAt (weaving.enter here) ++ _).map Prod.snd = _
  rw [Relocation.nopsAt, if_pos offset.symm, List.map_append, map_nopsFrom, List.replicate_add,
    map_flatMap_nops nops each]
  exact congrArg _ blank

theorem Weaving.Blank.place_eq {count : Nat} (blank : weaving.Blank here count)
    (woven : Woven old weaving code) (boundary : old.IsBoundary here) :
    weaving.place here = weaving.enter here + count := by
  have run := woven.inserted boundary
  unfold Weaving.Blank at blank
  generalize weaving.enter here = start at run ⊢
  generalize weaving.place here = stop at run ⊢
  generalize weaving.inserted here = entries at run blank
  induction run generalizing count with
  | done =>
      cases count with
      | zero => rfl
      | succ count => cases blank
  | @step pos stop located entries reads rest ih =>
      cases count with
      | zero => cases blank
      | succ count =>
          obtain ⟨same, behind⟩ := List.cons.inj blank
          have same : located = ⟨1, .plain [Opcode.nop]⟩ := same
          rw [same] at ih
          have := ih behind
          dsimp only at this
          omega

theorem Weaving.Calls.through {goal : Int} (calls : weaving.Calls pos goal)
    (elsewhere : moved.nopsAt (weaving.enter pos) = [])
    (outside : weaving.enter pos ≠ moved.gap.offset)
    (each : ∀ entry ∈ weaving.inserted pos,
      Image (moved.Lands now) (moved.place entry.1) entry.2.instruction (images entry.1)) :
    ∃ goal', (weaving.through moved images).Calls pos goal' ∧ moved.Lands now goal goal' := by
  have entered : moved.place (weaving.enter pos) = moved.enter (weaving.enter pos) := by
    rw [Relocation.enter, if_neg outside]
  have whole : (weaving.through moved images).inserted pos =
      (weaving.inserted pos).flatMap fun entry => images entry.1 := by
    show moved.nopsAt _ ++ _ = _
    rw [elsewhere, List.nil_append]
  unfold Weaving.Calls
  rw [whole]
  show ∃ goal', (_ = [(moved.enter (weaving.enter pos), _)] ∨ _) ∧ _
  rcases calls with same | same
  · rw [same] at each ⊢
    have image := each _ List.mem_cons_self
    rw [List.flatMap_singleton]
    dsimp only at image ⊢
    rw [entered] at image
    generalize images (weaving.enter pos) = image' at image ⊢
    cases image with
    | branch landed => exact ⟨_, .inl rfl, landed⟩
    | jsr landed => exact ⟨_, .inr rfl, landed⟩
    | conditional opposite => exact absurd opposite.isConditional.1 (by decide)
  · rw [same] at each ⊢
    have image := each _ List.mem_cons_self
    rw [List.flatMap_singleton]
    dsimp only at image ⊢
    rw [entered] at image
    generalize images (weaving.enter pos) = image' at image ⊢
    cases image with
    | wideBranch landed => exact ⟨_, .inr rfl, landed⟩

end Through

section Steps

variable {base : Array UInt8} {old : Listing} {weaving : Weaving} {cursor next : Cursor} {here : Nat}

theorem Cursor.insertGap_rewoven {start count length : Nat}
    (decoded : Listing.decode base = .ok old) (woven : Woven old weaving cursor.code.bytes)
    (boundary : old.IsBoundary here) (blank : weaving.Blank here count)
    (inserted : cursor.insertGap ⟨weaving.enter here, length, false⟩ = .ok (start, next)) :
    ∃ weaving', Rewoven old here weaving weaving' cursor.code next.code ∧
      weaving'.Blank here (length + count) ∧ start = weaving'.enter here ∧
      ∀ {pos : Nat}, old.IsBoundary pos → (cursor.moveTo (weaving.enter pos)).insertGap
        ⟨weaving.enter here, length, false⟩ = .ok (start, next.moveTo (weaving'.enter pos)) := by
  obtain ⟨now, place, opened⟩ := Cursor.insertGap_opened inserted
  have decoded' := opened.decoded
  obtain ⟨images, each⟩ := opened.code.exists_images decoded'
  have enter (pos : Nat) : Relocation.land ⟨⟨weaving.enter here, length, false⟩, start, place⟩ pos =
      Relocation.enter ⟨⟨weaving.enter here, length, false⟩, start, place⟩ pos :=
    Relocation.land_eq_enter rfl pos
  have image {pos : Nat} (known : old.IsBoundary pos) : ∀ entry ∈ weaving.inserted pos,
      Image (Relocation.Lands ⟨⟨weaving.enter here, length, false⟩, start, place⟩ now)
        (place entry.1) entry.2.instruction (images entry.1) := by
    intro entry member
    exact (each (woven.mem_inserted decoded decoded' known member)).1
  refine ⟨_, ⟨woven.through decoded decoded' opened.code rfl boundary rfl each, ?_, ?_, ?_, ?_, ?_⟩,
    blank.through rfl (image boundary), ?_, ?_⟩
  · intro pos known different empty
    show Relocation.nopsAt _ _ ++ _ = _
    rw [woven.nopsAt_eq_nil boundary rfl known different, empty]
    rfl
  · intro pos goal known different calls
    have outside : weaving.enter pos ≠ weaving.enter here := fun same =>
      different (woven.enter_inj known boundary same)
    obtain ⟨goal', calls', through, known', rfl, rfl⟩ := calls.through
      (woven.nopsAt_eq_nil boundary rfl known different) outside (image known)
    refine ⟨_, calls', fun {other} known => ?_⟩
    rw [enter]
    show ((_ : Nat) : Int) = ((Relocation.enter _ (weaving.enter other) : Nat) : Int) ↔ _
    rw [Int.ofNat_inj, Int.ofNat_inj]
    constructor
    · exact opened.code.enter_inj known' (woven.boundary_enter decoded decoded' known)
    · intro same
      rw [same]
  · intro table carried
    apply forall₂_trans _ carried opened.handlers
    intro before between after first second
    have spans := second.spans
    rw [enter, enter, enter] at spans
    refine ⟨?_, ?_, ?_, second.catchType.trans first.catchType⟩
    · rw [spans.start, first.start]
      rfl
    · rw [spans.stop, first.stop]
      rfl
    · rw [spans.target, first.target]
      rfl
  · intro pos known
    exact opened.code.forward (woven.boundary_enter decoded decoded' known)
  · intro _
    exact opened.bounded
  · exact (if_pos rfl).symm
  · intro pos known
    rw [opened.others (woven.boundary_enter decoded decoded' known), enter]
    rfl

theorem Cursor.overwrite_rewoven {bytes : List UInt8} {entries : List (Nat × Located)}
    (decoded : Listing.decode base = .ok old) (woven : Woven old weaving cursor.code.bytes)
    (boundary : old.IsBoundary here) (blank : weaving.Blank here bytes.length)
    (written : cursor.overwrite (weaving.enter here) bytes = .ok next)
    (spelled : Holds next.code.bytes (weaving.enter here) bytes →
      Runs next.code.bytes (weaving.enter here) entries (weaving.enter here + bytes.length)) :
    Rewoven old here weaving (weaving.insert here entries) cursor.code next.code := by
  have known := Cursor.overwrite_overwritten written
  have room := blank.place_eq woven boundary
  have run := spelled known.held
  rw [← room] at run
  have back := known.back
  rw [← room] at back
  refine ⟨woven.overwritten decoded boundary known.size known.front back run, ?_, ?_, ?_, ?_, ?_⟩
  · intro pos _ different empty
    rw [Weaving.inserted_insert_of_ne different, empty]
  · intro pos goal _ different calls
    refine ⟨goal, ?_, fun _ => Iff.rfl⟩
    unfold Weaving.Calls
    rw [Weaving.inserted_insert_of_ne different]
    exact calls
  · intro table carried
    rw [known.handlers]
    exact carried.imp fun _ _ moved => ⟨moved.start, moved.stop, moved.target, moved.catchType⟩
  · intro pos _
    exact Nat.le_refl _
  · intro bounded
    rw [known.size]
    exact bounded

end Steps

end ClassSplice.Code
