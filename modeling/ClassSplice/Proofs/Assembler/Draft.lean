import ClassSplice.Proofs.Assembler.Growth

/-!
Assembled code is made of whole instructions, whose targets are the places of labels (`Completes`). Up
to the last statement it is a draft: all displacements are zero, and each has a fixup. The fixups are
then filled in one after another, and none disturbs another.
-/

namespace ClassSplice.Assembler

open Code (Buffer Displaces Handler Holds Instruction Located Reads Runs SameOn slotWidth)

def Fixup.width (fixup : Fixup) : Nat :=
  slotWidth fixup.isWide

namespace Piece

def stop (piece : Piece) : Nat :=
  piece.pos + piece.instruction.lengthAt piece.pos

/-- The instruction in its place, once the places of labels are known. -/
def entry (place : String → Nat) (piece : Piece) : Nat × Located :=
  (piece.pos, ⟨piece.instruction.lengthAt piece.pos, piece.filled fun name => place name⟩)

variable {piece : Piece} {fixup : Fixup}

theorem Blank.slot (blank : piece.Blank) (member : fixup ∈ piece.fixups) :
    fixup.pos ∈ piece.instruction.slots piece.pos :=
  blank.places ▸ List.mem_map_of_mem member

theorem Blank.width (blank : piece.Blank) (member : fixup ∈ piece.fixups) :
    fixup.width = slotWidth piece.instruction.hasWideSlots := by
  rw [Fixup.width, (blank.alike fixup member).2]

theorem Blank.bounds (blank : piece.Blank) (member : fixup ∈ piece.fixups) :
    fixup.origin = piece.pos ∧ piece.pos < fixup.pos ∧ fixup.pos + fixup.width ≤ piece.stop := by
  obtain ⟨low, high⟩ := Instruction.slot_bounds (blank.slot member)
  exact ⟨(blank.alike fixup member).1, low, blank.width member ▸ high⟩

theorem Blank.inReach (blank : piece.Blank) : piece.instruction.InReach piece.pos := by
  obtain ⟨targets, _, _⟩ := blank
  cases same : piece.instruction with
  | branch opcode target =>
      rw [same] at targets
      rw [Instruction.InReach, targets target (List.mem_singleton_self _), Int.sub_self]
      rfl
  | plain | wideBranch | tableSwitch | lookupSwitch =>
      rw [same] at targets
      intro target member
      rw [targets target member, Int.sub_self]
      decide

theorem Blank.targets_filled (blank : piece.Blank) (place : String → Int) :
    (piece.filled place).targets = piece.labels.map place := by
  have count : (piece.instruction.slots piece.pos).length = (piece.labels.map place).length := by
    rw [← blank.places, List.length_map, List.length_map, labels, List.length_map]
  exact Instruction.targets_retarget count

end Piece

inductive Draft (code : Array UInt8) : Nat → List Piece → Nat → Prop
  | done (pos : Nat) : Draft code pos [] pos
  | step {piece : Piece} {pieces : List Piece} {stop : Nat}
      (held : Holds code piece.pos (piece.instruction.spell piece.pos)) (blank : piece.Blank)
      (wellFormed : piece.stop ≤ 2147483647 → piece.instruction.WellFormed)
      (rest : Draft code piece.stop pieces stop) : Draft code piece.pos (piece :: pieces) stop

section Draft

variable {code code' : Array UInt8} {start middle stop : Nat} {pieces pieces' : List Piece}
  {piece : Piece} {fixup : Fixup}

theorem Draft.le (draft : Draft code start pieces stop) : start ≤ stop := by
  induction draft with
  | done => exact Nat.le_refl _
  | step held blank wellFormed rest ih => exact Nat.le_trans (Nat.le_add_right _ _) ih

theorem Draft.bounds (draft : Draft code start pieces stop) (member : piece ∈ pieces) :
    piece.Blank ∧ start ≤ piece.pos ∧ piece.stop ≤ stop := by
  induction draft with
  | done => cases member
  | @step first pieces stop held blank wellFormed rest ih =>
      have behind := rest.le
      have : first.pos ≤ first.stop := Nat.le_add_right _ _
      rcases List.mem_cons.1 member with rfl | later
      · exact ⟨blank, Nat.le_refl _, behind⟩
      · obtain ⟨blank, low, high⟩ := ih later
        exact ⟨blank, by omega, high⟩

theorem Draft.fixup_bounds (draft : Draft code start pieces stop)
    (member : fixup ∈ pieces.flatMap Piece.fixups) :
    start ≤ fixup.origin ∧ fixup.origin < fixup.pos ∧ fixup.pos + fixup.width ≤ stop := by
  obtain ⟨piece, among, within⟩ := List.mem_flatMap.1 member
  obtain ⟨blank, low, high⟩ := draft.bounds among
  obtain ⟨same, above, below⟩ := blank.bounds within
  omega

theorem Draft.pairwise (draft : Draft code start pieces stop) :
    (pieces.flatMap Piece.fixups).Pairwise fun one other => one.pos + one.width ≤ other.pos := by
  induction draft with
  | done => exact .nil
  | @step piece pieces stop held blank wellFormed rest ih =>
      rw [List.flatMap_cons, List.pairwise_append]
      refine ⟨?_, ih, fun one first other later => ?_⟩
      · have apart := piece.instruction.pairwise_slots piece.pos
        rw [← blank.places, List.pairwise_map] at apart
        refine apart.imp_of_mem fun first _ less => ?_
        rwa [blank.width first]
      · obtain ⟨_, _, high⟩ := blank.bounds first
        obtain ⟨low, above, _⟩ := rest.fixup_bounds later
        omega

def Framed (code code' : Array UInt8) (fixups : List Fixup) : Prop :=
  ∀ i, (∀ fixup ∈ fixups, i < fixup.pos ∨ fixup.pos + fixup.width ≤ i) → code'[i]? = code[i]?

theorem Draft.outside (draft : Draft code start pieces stop) (member : piece ∈ pieces) {i : Nat}
    (low : piece.pos ≤ i) (high : i < piece.stop)
    (own : ∀ fixup ∈ piece.fixups, i < fixup.pos ∨ fixup.pos + fixup.width ≤ i) :
    ∀ fixup ∈ pieces.flatMap Piece.fixups, i < fixup.pos ∨ fixup.pos + fixup.width ≤ i := by
  induction draft with
  | done => cases member
  | @step first pieces stop held blank wellFormed rest ih =>
      intro fixup among
      rw [List.flatMap_cons, List.mem_append] at among
      rcases List.mem_cons.1 member with rfl | later <;> rcases among with here | behind
      · exact own fixup here
      · obtain ⟨far, above, _⟩ := rest.fixup_bounds behind
        exact .inl (by omega)
      · obtain ⟨_, _, below⟩ := blank.bounds here
        obtain ⟨_, far, _⟩ := rest.bounds later
        exact .inr (by omega)
      · exact ih later fixup behind

theorem Draft.held (draft : Draft code start pieces stop) (member : piece ∈ pieces) :
    Holds code piece.pos (piece.instruction.spell piece.pos) := by
  induction draft with
  | done => cases member
  | step held blank wellFormed rest ih =>
      rcases List.mem_cons.1 member with rfl | later
      · exact held
      · exact ih later

theorem Draft.reads (draft : Draft code start pieces stop) (small : stop ≤ 2147483647)
    (member : piece ∈ pieces) :
    Reads code piece.pos ⟨piece.instruction.lengthAt piece.pos, piece.instruction⟩ := by
  have held := draft.held member
  induction draft with
  | done => cases member
  | step first blank wellFormed rest ih =>
      rcases List.mem_cons.1 member with rfl | later
      · exact Code.reads_spell (wellFormed (Nat.le_trans rest.le small)) blank.inReach held
      · exact ih small later

theorem Draft.plain (draft : Draft code start pieces stop) (size : code'.size = code.size)
    (framed : Framed code code' (pieces.flatMap Piece.fixups)) (member : piece ∈ pieces)
    {bytes : List UInt8} (plain : piece.instruction = .plain bytes) : Holds code' piece.pos bytes := by
  have held := draft.held member
  have none : piece.fixups = [] := by
    have places := (draft.bounds member).1.places
    rw [plain] at places
    exact List.map_eq_nil_iff.1 places
  have length : piece.stop = piece.pos + bytes.length := by rw [Piece.stop, plain]; rfl
  rw [plain] at held
  refine SameOn.holds (fun i low high => framed i ?_) size held
  exact draft.outside member low (length ▸ high) (by simp [none])

theorem Draft.fill (draft : Draft code start pieces stop) (small : stop ≤ 2147483647)
    (size : code'.size = code.size) (framed : Framed code code' (pieces.flatMap Piece.fixups))
    {place : String → Nat} (filled : ∀ fixup ∈ pieces.flatMap Piece.fixups,
      Displaces code' fixup.origin fixup.pos fixup.isWide (place fixup.label)) (member : piece ∈ pieces) :
    Reads code' piece.pos (piece.entry place).2 := by
  have blank := (draft.bounds member).1
  have among {fixup : Fixup} (within : fixup ∈ piece.fixups) : fixup ∈ pieces.flatMap Piece.fixups :=
    List.mem_flatMap.2 ⟨piece, member, within⟩
  refine (draft.reads small member).retarget size (fun i low high outside => ?_) ?_
  · refine framed i (draft.outside member low high fun fixup within => ?_)
    rw [blank.width within]
    exact outside _ (blank.slot within)
  · rw [← blank.places, Piece.labels, List.map_map, List.forall₂_map_left_iff,
      List.forall₂_map_right_iff]
    refine List.forall₂_same.2 fun fixup within => ?_
    have filled := filled fixup (among within)
    rwa [(blank.alike fixup within).1, (blank.alike fixup within).2] at filled

theorem Draft.runs (draft : Draft code start pieces stop) {place : String → Nat}
    (reads : ∀ piece ∈ pieces, Reads code' piece.pos (piece.entry place).2) :
    Runs code' start (pieces.map (Piece.entry place)) stop := by
  induction draft with
  | done => exact .done _
  | step held blank wellFormed rest ih =>
      exact .step (reads _ List.mem_cons_self) (ih fun piece later => reads piece (List.mem_cons_of_mem _ later))

end Draft

theorem holds_of_append {code code' : Array UInt8} {pos : Nat} {bytes : List UInt8}
    (held : Holds code pos bytes) (kept : code.toList <+: code'.toList) : Holds code' pos bytes := by
  obtain ⟨front, back, split, length⟩ := held
  obtain ⟨more, behind⟩ := kept
  exact ⟨front, back ++ more, by rw [← behind, split, List.append_assoc], length⟩

section Trace

variable {last : Pool} {start state state' : Assembly} {sources : List Statement} {groups : List (List Piece)}
  {pieces : List Piece} {before : Assembly} {done : List Fixup}

theorem Trace.draft (trace : Trace last start sources groups state) :
    Draft state.buffer.bytes start.buffer.pc groups.flatten state.buffer.pc := by
  induction trace with
  | done => exact .done _
  | @step start between state pool source pieces sources groups treats _ rest ih =>
      obtain ⟨lands, acts⟩ := treats
      have landed : _ = start.buffer.pc := lands.pc
      generalize source.clause = clause at acts
      cases acts with
      | silent => exact landed ▸ ih
      | handler => exact landed ▸ ih
      | @writes _ piece _ writes =>
          obtain ⟨effect, emits, _⟩ := writes
          have here : piece.pos = start.buffer.pc := emits.pos.trans landed
          have behind : piece.stop = between.buffer.pc := by
            rw [emits.grows.pc, ← emits.pos, Instruction.length_spell, Piece.stop]
          rw [← here]
          refine .step (holds_of_append ?_ ⟨_, rest.advances.bytes.symm⟩) emits.blank
            (fun small => emits.wellFormed (behind ▸ small)) (behind ▸ ih)
          exact ⟨_, [], by rw [emits.grows.bytes, List.append_nil], by
            rw [Array.length_toList, emits.pos]; rfl⟩

theorem getElem?_overwrite {buffer : Buffer} {pos i : Nat} {bytes : List UInt8}
    (outside : i < pos ∨ pos + bytes.length ≤ i) :
    (buffer.overwrite pos bytes).bytes[i]? = buffer.bytes[i]? := by
  induction bytes generalizing buffer pos with
  | nil => rfl
  | cons byte rest ih =>
      rw [List.length_cons] at outside
      rw [Buffer.overwrite, ih (by omega)]
      exact Array.getElem?_setIfInBounds_ne (by omega)

theorem holds_overwrite {buffer : Buffer} {pos : Nat} {bytes : List UInt8}
    (inside : pos + bytes.length ≤ buffer.pc) :
    Code.Holds (buffer.overwrite pos bytes).bytes pos bytes := by
  have length : (buffer.bytes.extract pos (pos + bytes.length)).toList.length = bytes.length := by
    have : pos + bytes.length ≤ buffer.bytes.size := inside
    rw [Array.length_toList, Array.size_extract]
    omega
  obtain ⟨front, back, split, rfl⟩ := Code.holds_extract inside (Nat.le_add_right pos bytes.length)
  exact ⟨front, back, Buffer.toList_overwrite split length.symm, rfl⟩

/-- Some of the displacements are filled in, and nothing else is changed. -/
structure Filled (before : Assembly) (done : List Fixup) (state : Assembly) : Prop where
  size : state.buffer.bytes.size = before.buffer.bytes.size
  rest : state.buffer = { before.buffer with bytes := state.buffer.bytes }
  labels : state.labels = before.labels
  handlers : state.handlers = before.handlers
  framed : Framed before.buffer.bytes state.buffer.bytes done
  placed : ∀ fixup ∈ done, ∃ target, (before.label fixup.label).pos = some target ∧
    (before.buffer.pc ≤ 2147483647 →
      Displaces state.buffer.bytes fixup.origin fixup.pos fixup.isWide target)

def displacementBytes (isWide : Bool) (distance : Int) : List UInt8 :=
  if isWide then Binary.Writer.i32 (Int32.ofInt distance) else Binary.Writer.i16 (Int16.ofInt distance)

theorem length_displacementBytes (isWide : Bool) (distance : Int) :
    (displacementBytes isWide distance).length = slotWidth isWide := by
  cases isWide <;> exact Binary.BigEndian.length_bytes ..

theorem displaces_of_holds {code : Array UInt8} {origin slot target : Nat} {isWide : Bool}
    (held : Code.Holds code slot (displacementBytes isWide (target - origin)))
    (short : isWide = true ∨ -32768 ≤ (target : Int) - origin ∧ (target : Int) - origin ≤ 32767)
    (reach : origin ≤ 2147483647 ∧ target ≤ 2147483647) :
    Displaces code origin slot isWide target := by
  cases isWide with
  | false =>
      obtain ⟨low, high⟩ := short.resolve_left Bool.false_ne_true
      refine ⟨_, Code.i16At_i16 held, ?_⟩
      rw [Int16.toInt_ofInt_of_le (by omega) (by omega)]
      omega
  | true =>
      refine ⟨_, Code.i32At_i32 held, ?_⟩
      rw [Int32.toInt_ofInt_of_le (by omega) (by omega)]
      omega

theorem yields_patch {fixup : Fixup} {pool pool' : Pool} {value : Unit}
    (yields : Yields (patch fixup) state pool value state' pool') :
    ∃ target : Nat, (state.label fixup.label).pos = some target ∧
      (fixup.isWide = true ∨
        -32768 ≤ (target : Int) - fixup.origin ∧ (target : Int) - fixup.origin ≤ 32767) ∧
      { state with
        line := fixup.line
        buffer := state.buffer.overwrite fixup.pos
          (displacementBytes fixup.isWide (target - fixup.origin)) } = state' := by
  unfold patch at yields
  obtain ⟨_, _, _, numbered, yields⟩ := yields_bind.1 yields
  obtain ⟨rfl, _⟩ := yields_modify.1 numbered
  obtain ⟨target, _, _, found, yields⟩ := yields_bind.1 yields
  obtain ⟨placed, rfl, rfl⟩ := yields_placedAt found
  refine ⟨target, placed, ?_⟩
  dsimp only at yields
  split at yields
  · rename_i wide
    obtain ⟨rfl, _⟩ := yields_modify.1 yields
    rw [wide]
    exact ⟨.inl rfl, rfl⟩
  · rename_i narrow
    have narrow := Bool.eq_false_of_not_eq_true narrow
    split at yields
    · rename_i short
      obtain ⟨rfl, _⟩ := yields_modify.1 yields
      rw [narrow]
      exact ⟨.inr short, rfl⟩
    · exact absurd yields not_yields_fail

theorem rest_overwrite (buffer : Buffer) (pos : Nat) (bytes : List UInt8) :
    buffer.overwrite pos bytes = { buffer with bytes := (buffer.overwrite pos bytes).bytes } := by
  induction bytes generalizing buffer pos with
  | nil => rfl
  | cons byte bytes ih => exact ih _ _

theorem Filled.patch {fixup : Fixup} {pool pool' : Pool} {value : Unit}
    (filled : Filled before done state)
    (apart : ∀ other ∈ done, other.pos + other.width ≤ fixup.pos)
    (inside : fixup.pos + fixup.width ≤ before.buffer.pc)
    (origin : fixup.origin ≤ before.buffer.pc)
    (reach : ∀ name pos, (before.label name).pos = some pos → pos ≤ before.buffer.pc)
    (yields : Yields (Assembler.patch fixup) state pool value state' pool') :
    Filled before (done ++ [fixup]) state' := by
  obtain ⟨target, placed, short, rfl⟩ := yields_patch yields
  have placed : (before.label fixup.label).pos = some target := by
    rw [← placed, Assembly.label, Assembly.label, filled.labels]
  have width := length_displacementBytes fixup.isWide (target - fixup.origin)
  have here : state.buffer.pc = before.buffer.pc := filled.size
  have size : (state.buffer.overwrite fixup.pos _).pc = state.buffer.pc := Buffer.pc_overwrite
    fixup.pos (displacementBytes fixup.isWide (target - fixup.origin))
  refine ⟨size.trans filled.size, ?_, filled.labels, filled.handlers, fun i outside => ?_,
    fun other member => ?_⟩
  · dsimp only
    rw [rest_overwrite, filled.rest]
  · have last := outside fixup (List.mem_append_right _ (List.mem_singleton_self _))
    rw [Fixup.width, ← width] at last
    refine (getElem?_overwrite last).trans (filled.framed i fun other member => ?_)
    exact outside other (List.mem_append_left _ member)
  · rcases List.mem_append.1 member with earlier | last
    · obtain ⟨goal, known, displaces⟩ := filled.placed other earlier
      have := apart other earlier
      rw [Fixup.width] at this
      refine ⟨goal, known, fun small => (displaces small).same (fun i low high => ?_) size ?_⟩
      · exact getElem?_overwrite (.inl (by omega))
      · have : state.buffer.bytes.size = before.buffer.pc := here
        omega
    · cases List.mem_singleton.1 last
      refine ⟨target, placed, fun small => displaces_of_holds (holds_overwrite ?_) short
        ⟨Nat.le_trans origin small, Nat.le_trans (reach _ _ placed) small⟩⟩
      rw [width, here]
      exact inside

theorem leads_forArray {α : Type} {step : α → AssemblyM PUnit} {items : Array α}
    (holds : List α → Assembly → Prop) (each : ∀ done item rest, items.toList = done ++ item :: rest →
      Leads (fun state _ => holds done state) (step item) fun _ state _ => holds (done ++ [item]) state) :
    Leads (fun state _ => holds [] state) (items.forM step) fun _ state _ => holds items.toList state := by
  have folded (rest : List α) : ∀ done, items.toList = done ++ rest →
      Leads (fun state _ => holds done state) (rest.foldlM (fun _ => step) ⟨⟩)
        fun _ state _ => holds items.toList state := by
    induction rest with
    | nil =>
        intro done split
        rw [List.append_nil] at split
        rw [split]
        exact .keep (Preserves.pure _)
    | cons item rest ih =>
        intro done split
        rw [List.foldlM_cons]
        apply Leads.bind (each done item rest split)
        intro _
        exact ih _ (by rw [split, List.append_assoc, List.singleton_append])
  unfold Array.forM
  rw [← Array.foldlM_toList]
  exact folded items.toList [] rfl

theorem Draft.patches {low : Nat} (draft : Draft before.buffer.bytes low pieces before.buffer.pc)
    (fixups : before.fixups.toList = pieces.flatMap Piece.fixups)
    (reach : ∀ name pos, (before.label name).pos = some pos → pos ≤ before.buffer.pc) :
    Leads (fun state _ => before = state) (before.fixups.forM Assembler.patch)
      fun _ state _ => Filled before (pieces.flatMap Piece.fixups) state := by
  have ordered := draft.pairwise
  rw [← fixups] at ordered ⊢
  refine (leads_forArray (Filled before) fun done fixup rest split => ?_).imp ?_ fun _ _ _ known => known
  · constructor
    intro state pool value state' pool' yields filled
    have member : fixup ∈ pieces.flatMap Piece.fixups := by simp [← fixups, split]
    obtain ⟨_, above, inside⟩ := draft.fixup_bounds member
    rw [split, List.pairwise_append] at ordered
    have apart := fun other earlier => ordered.2.2 other earlier fixup List.mem_cons_self
    exact filled.patch apart inside (by omega) reach yields
  · rintro state _ rfl
    exact ⟨rfl, rfl, rfl, rfl, fun _ _ => rfl, nofun⟩

def Assembly.place (state : Assembly) (name : String) : Nat :=
  (state.label name).pos.getD 0

def Assembly.IsPlaced (state : Assembly) (name : String) : Prop :=
  (state.label name).pos = some (state.place name)

theorem isPlaced_of_pos {name : String} {pos : Nat} (placed : (state.label name).pos = some pos) :
    state.IsPlaced name ∧ state.place name = pos := by
  simp [Assembly.IsPlaced, Assembly.place, placed]

structure Enters (placed : Assembly) (pending : PendingHandler) (handler : Handler) : Prop where
  spans : handler.Spans (placed.place pending.start) (placed.place pending.stop)
    (placed.place pending.target)
  start : placed.IsPlaced pending.start
  stop : placed.IsPlaced pending.stop
  target : placed.IsPlaced pending.target

theorem Enters.same {other : Assembly} {pending : PendingHandler} {handler : Handler}
    (enters : Enters state pending handler) (labels : state.labels = other.labels) :
    Enters other pending handler := by
  have label (name : String) : state.label name = other.label name := by
    rw [Assembly.label, Assembly.label, labels]
  obtain ⟨spans, start, stop, target⟩ := enters
  simp only [Assembly.IsPlaced, Assembly.place, label] at spans start stop target
  exact ⟨spans, start, stop, target⟩

structure Handles (before : Assembly) (done : List PendingHandler) (state : Assembly) : Prop where
  rest : state.buffer = { before.buffer with handlers := state.buffer.handlers }
  labels : state.labels = before.labels
  entered : ∃ added, state.buffer.handlers = before.buffer.handlers ++ added ∧
    List.Forall₂ (Enters before) done added

theorem Handles.add {done : List PendingHandler} {handler : PendingHandler} {pool pool' : Pool}
    {value : Unit} (handles : Handles before done state)
    (yields : Yields (addHandler handler) state pool value state' pool') :
    Handles before (done ++ [handler]) state' := by
  unfold addHandler at yields
  obtain ⟨_, _, _, numbered, yields⟩ := yields_bind.1 yields
  obtain ⟨rfl, _⟩ := yields_modify.1 numbered
  obtain ⟨start, _, _, found, yields⟩ := yields_bind.1 yields
  obtain ⟨atStart, rfl, rfl⟩ := yields_placedAt found
  obtain ⟨stop, _, _, found, yields⟩ := yields_bind.1 yields
  obtain ⟨atStop, rfl, rfl⟩ := yields_placedAt found
  obtain ⟨target, _, _, found, yields⟩ := yields_bind.1 yields
  obtain ⟨atTarget, rfl, rfl⟩ := yields_placedAt found
  obtain ⟨buffer, added, rfl, _⟩ := yields_emitChecked.1 yields
  simp only [Buffer.addHandler, Code.HandlerTable.add, bind_eq_ok, pure_eq_ok,
    Handler.make_eq_ok] at added
  obtain ⟨table, ⟨entry, ⟨spans, _⟩, rfl⟩, rfl⟩ := added
  have known {name : String} {pos : Nat} (placed : (state.label name).pos = some pos) :
      before.IsPlaced name ∧ before.place name = pos := by
    refine isPlaced_of_pos ?_
    rw [← placed, Assembly.label, Assembly.label, handles.labels]
  obtain ⟨isStart, rfl⟩ := known atStart
  obtain ⟨isStop, rfl⟩ := known atStop
  obtain ⟨isTarget, rfl⟩ := known atTarget
  obtain ⟨added, same, entered⟩ := handles.entered
  refine ⟨?_, handles.labels, added ++ [entry], ?_, ?_⟩
  · dsimp only
    rw [handles.rest]
  · dsimp only
    rw [same, List.append_assoc]
  · exact List.rel_append entered (.cons ⟨spans, isStart, isStop, isTarget⟩ .nil)

/-- What assembling a listing comes to: the statements were traced, and then all displacements were
filled in and all handlers added. -/
structure Completes (last : Pool) (start : Assembly) (sources : List Statement)
    (groups : List (List Piece)) (traced : Assembly) (final : Buffer) : Prop where
  trace : Trace last start sources groups traced
  pc : final.pc = traced.buffer.pc
  depth : final.depth = traced.buffer.depth
  maxStack : final.maxStack = traced.buffer.maxStack
  maxLocals : final.maxLocals = traced.buffer.maxLocals
  placed : ∀ piece ∈ groups.flatten, ∀ name ∈ piece.labels, traced.IsPlaced name
  plain : ∀ piece ∈ groups.flatten, ∀ bytes, piece.instruction = .plain bytes →
    Holds final.bytes piece.pos bytes
  runs : final.pc ≤ 2147483647 → Runs final.bytes start.buffer.pc
    (groups.flatten.map (Piece.entry traced.place)) final.pc
  handlers : ∃ added, final.handlers = start.buffer.handlers ++ added ∧
    List.Forall₂ (Enters traced) traced.handlers.toList added

theorem assembleAll_completes {scope : Scope} {buffer : Buffer} {pool pool' : Pool}
    (run : Yields (assembleAll sources) { scope, buffer } pool () state pool') :
    ∃ groups traced, Completes pool' { scope, buffer } sources groups traced state.buffer := by
  unfold assembleAll at run
  obtain ⟨_, traced, _, stated, run⟩ := yields_bind.1 run
  obtain ⟨_, _, _, got, run⟩ := yields_bind.1 run
  obtain ⟨rfl, rfl, rfl⟩ := yields_get.1 got
  obtain ⟨_, patched, _, done, run⟩ := yields_bind.1 run
  obtain ⟨_, _, _, got, run⟩ := yields_bind.1 run
  obtain ⟨rfl, rfl, rfl⟩ := yields_get.1 got
  have extended := ((AddsConstants.forArray addsConstants_patch _).appends _).extended done
  have further := ((AddsConstants.forArray addsConstants_addHandler _).appends _).extended run
  obtain ⟨groups, trace⟩ := yields_statements stated (extended.trans further)
  have unplaced : Behind buffer { scope, buffer } := by
    refine ⟨⟨List.prefix_rfl, [], by simp, by simp⟩, fun name pos placed => ?_, by simp⟩
    simp [Assembly.label] at placed
  have draft := trace.draft
  have fixups : traced.fixups.toList = groups.flatten.flatMap Piece.fixups := by
    rw [trace.advances.fixups]
    rfl
  have filled := (draft.patches fixups fun name pos placed =>
    ((unplaced.trace trace).labels name pos placed).2).leads done rfl
  have handled := (leads_forArray (Handles patched) fun done handler rest _ =>
    ⟨fun yields handles => handles.add yields⟩).leads run
    ⟨rfl, rfl, [], by simp, .nil⟩
  have place {name : String} {pos : Nat} (known : (traced.label name).pos = some pos) :=
    isPlaced_of_pos known
  have bytes : state.buffer.bytes = patched.buffer.bytes := by rw [handled.rest]
  have pc : state.buffer.pc = traced.buffer.pc := (congrArg Array.size bytes).trans filled.size
  refine ⟨groups, traced, trace, pc, ?_, ?_, ?_, ?_, ?_, ?_, ?_⟩
  · rw [handled.rest, filled.rest]
  · rw [handled.rest, filled.rest]
  · rw [handled.rest, filled.rest]
  · intro piece member name named
    obtain ⟨fixup, within, rfl⟩ := List.mem_map.1 named
    obtain ⟨target, known, _⟩ := filled.placed fixup (List.mem_flatMap.2 ⟨piece, member, within⟩)
    exact (place known).1
  · intro piece member plain same
    rw [bytes]
    exact draft.plain filled.size filled.framed member same
  · intro small
    rw [pc] at small ⊢
    rw [bytes]
    refine draft.runs fun piece member => draft.fill small filled.size filled.framed ?_ member
    intro fixup among
    obtain ⟨target, known, displaces⟩ := filled.placed fixup among
    rw [(place known).2]
    exact displaces small
  · obtain ⟨added, same, entered⟩ := handled.entered
    refine ⟨added, ?_, ?_⟩
    · rw [same, filled.rest, trace.advances.table]
    · rw [← filled.handlers]
      exact entered.imp fun pending handler enters => enters.same filled.labels

theorem assemble_completes {source : String} {scope scope' : Scope} {buffer buffer' : Buffer}
    {pool pool' : Pool}
    (assembled : outcome (assemble source scope buffer) pool = (.ok (scope', buffer'), pool')) :
    ∃ sources groups traced, statements source = .ok sources ∧
      Completes pool' { scope, buffer } sources groups traced buffer' := by
  obtain ⟨sources, state, split, run, rfl, rfl⟩ := outcome_assemble_eq_ok.1 assembled
  obtain ⟨groups, traced, completes⟩ := assembleAll_completes run
  exact ⟨sources, groups, traced, split, completes⟩

end Trace

end ClassSplice.Assembler
