import ClassSplice.Proofs.Assembler.Placement
import ClassSplice.Proofs.Assembler.Underflow

/-!
The highest depth that an assembly counts is never exceeded at an instruction whose depth it knows
(`assemble_highWater`). It is not known behind a label to which control first comes from further down.
-/

namespace ClassSplice.Assembler

open Code (Buffer Comes Instruction Levels Located)

/-- What is known on the way through a listing. -/
structure Survey where
  known : Bool
  reachable : Bool
  /-- The labels that were met, and whether the depth was known when they first were. -/
  met : String → Option Bool

namespace Survey

def initial : Survey :=
  ⟨true, true, fun _ => none⟩

/-- A label is placed. Where the code before it does not run into it, the depth is that with which
the label was met. -/
def land (survey : Survey) (name : String) : Survey :=
  if survey.reachable then survey
  else { survey with known := (survey.met name).getD false, reachable := true }

def landed (survey : Survey) (source : Statement) : Survey :=
  source.labels.foldl land survey

def meet (survey : Survey) (names : List String) (known : Bool) : Survey :=
  { survey with met := fun name => (survey.met name).or (if name ∈ names then some known else none) }

def pass (survey : Survey) (clause : Clause) : Survey :=
  let here := survey.known && survey.reachable
  { survey.meet clause.labels here with
    known := here, reachable := survey.reachable && !clause.endsFlow }

def act (survey : Survey) : Clause → Survey
  | .silent => survey
  | .handler _ _ target => survey.meet [target] true
  | clause => survey.pass clause

def along (survey : Survey) : List Statement → List Survey
  | [] => []
  | source :: sources =>
    let here := survey.landed source
    let rest := (here.act source.clause).along sources
    if source.isInstruction then here :: rest else rest

/-- Is the depth known if control comes here at all? -/
def isSure (survey : Survey) : Bool :=
  survey.known || !survey.reachable

theorem act_of_isInstruction {survey : Survey} {clause : Clause} (said : clause.isInstruction = true) :
    survey.act clause = survey.pass clause := by
  cases clause with
  | silent | handler => cases said
  | plain | branch | tableSwitch | lookupSwitch => rfl

end Survey

section Tracks

variable {place : String → Nat} {right : Nat → Int → Prop} {survey : Survey} {start state : Assembly}
  {pool : Pool} {name : String} {names : List String}

/-- The labels that are not placed yet have depths as far as they were met, which are right where they
were known. -/
structure Tracks.Labels (place : String → Nat) (right : Nat → Int → Prop) (survey : Survey)
    (state : Assembly) : Prop where
  unmet : ∀ name, (state.label name).pos = none → survey.met name = none →
    (state.label name).depth = none
  met : ∀ name, (state.label name).pos = none → survey.met name = some true →
    ∃ depth, (state.label name).depth = some depth ∧ right (place name) depth

structure Tracks (place : String → Nat) (right : Nat → Int → Prop) (survey : Survey)
    (state : Assembly) : Prop where
  reachable : survey.reachable = state.reachable
  here : survey.known = true → survey.reachable = true → right state.buffer.pc state.buffer.depth
  labels : Tracks.Labels place right survey state

theorem Tracks.Labels.meet {known : Bool} {depth : Int} (labels : Tracks.Labels place right survey start)
    (notes : ∀ name, state.label name =
      if name ∈ names then (start.label name).met depth else start.label name)
    (known' : known = true → ∀ name ∈ names, right (place name) depth) :
    Tracks.Labels place right (survey.meet names known) state := by
  constructor
  · intro name unplaced unmet
    have apart : name ∉ names := by
      intro among
      simp [Survey.meet, among] at unmet
    rw [notes, if_neg apart] at unplaced ⊢
    exact labels.unmet name unplaced (by simpa [Survey.meet, apart] using unmet)
  · intro name unplaced met
    by_cases among : name ∈ names
    · rw [notes, if_pos among] at unplaced ⊢
      rw [Label.pos_met] at unplaced
      cases earlier : survey.met name with
      | none =>
          simp only [Survey.meet, earlier, among, if_true, Option.none_or, Option.some.injEq] at met
          exact ⟨depth, by simp [Label.met, labels.unmet name unplaced earlier], known' met name among⟩
      | some sure =>
          simp only [Survey.meet, earlier, Option.some_or, Option.some.injEq] at met
          obtain ⟨level, noted, right⟩ := labels.met name unplaced (by rw [earlier, met])
          exact ⟨level, by simp [Label.met, noted], right⟩
    · rw [notes, if_neg among] at unplaced ⊢
      exact labels.met name unplaced (by simpa [Survey.meet, among] using met)

theorem Tracks.land (tracks : Tracks place right survey start) (places : Places name start state)
    (here : place name = start.buffer.pc) : Tracks place right (survey.land name) state := by
  have pc : state.buffer.pc = start.buffer.pc := congrArg Array.size places.bytes
  have labels : Tracks.Labels place right survey state := by
    constructor
    · intro other unplaced
      rw [places.label] at unplaced ⊢
      split at unplaced
      · cases unplaced
      · rename_i apart
        rw [if_neg apart]
        exact tracks.labels.unmet other unplaced
    · intro other unplaced
      rw [places.label] at unplaced ⊢
      split at unplaced
      · cases unplaced
      · rename_i apart
        rw [if_neg apart]
        exact tracks.labels.met other unplaced
  unfold Survey.land
  split
  · rename_i reachable
    refine ⟨by rw [reachable, places.reachable], fun known _ => ?_, labels⟩
    rw [pc, places.depth, if_pos (tracks.reachable ▸ reachable)]
    exact tracks.here known reachable
  · rename_i unreachable
    refine ⟨by rw [places.reachable], fun known _ => ?_, ⟨labels.unmet, labels.met⟩⟩
    have met : survey.met name = some true := by
      cases found : survey.met name with
      | none => simp [found] at known
      | some sure => simpa [found] using known
    obtain ⟨depth, noted, right⟩ := tracks.labels.met name places.fresh met
    rw [pc, places.depth, if_neg (tracks.reachable ▸ unreachable), noted, ← here]
    exact right

theorem Tracks.lands (lands : Lands names start state)
    (here : ∀ name ∈ names, place name = start.buffer.pc) (tracks : Tracks place right survey start) :
    Tracks place right (names.foldl Survey.land survey) state := by
  induction lands generalizing survey with
  | nil => exact tracks
  | cons places rest ih =>
      refine ih (fun name member => ?_) (tracks.land places (here _ List.mem_cons_self))
      exact (here name (List.mem_cons_of_mem _ member)).trans (congrArg Array.size places.bytes).symm

theorem Tracks.pass {clause : Clause} {piece : Piece} {effect : Int}
    (tracks : Tracks place right survey start) (emits : Emits clause piece effect start state pool)
    (reachable : state.reachable = (start.reachable && !clause.endsFlow))
    (onward : right start.buffer.pc start.buffer.depth → clause.endsFlow = false →
      right state.buffer.pc state.buffer.depth)
    (jumps : right start.buffer.pc start.buffer.depth → ∀ name ∈ clause.labels,
      right (place name) (start.buffer.depth + effect)) :
    Tracks place right (survey.pass clause) state := by
  have here (known : (survey.known && survey.reachable) = true) :
      right start.buffer.pc start.buffer.depth := by
    rw [Bool.and_eq_true] at known
    exact tracks.here known.1 known.2
  refine ⟨?_, fun known goesOn => ?_, ?_⟩
  · rw [reachable, ← tracks.reachable]
    rfl
  · refine onward (here known) ?_
    simpa using (Bool.and_eq_true_iff.1 goesOn).2
  · have notes (name : String) : state.label name = if name ∈ clause.labels then
        (start.label name).met (start.buffer.depth + effect) else start.label name := by
      rw [emits.notes.label]
      simp only [← emits.mem_labels, Piece.labels]
    have labels := tracks.labels.meet notes fun known => jumps (here known)
    exact ⟨labels.unmet, labels.met⟩

end Tracks

section Levels

variable {last pool : Pool} {start state : Assembly} {source : Statement} {sources : List Statement}
  {pieces : List Piece} {groups : List (List Piece)} {survey : Survey} {place : String → Nat}
  {piece : Piece} {clause : Clause} {effect level initial : Int} {entries : List (Nat × Located)}
  {first : Nat} {catches : List Nat} {depth : Nat → Int}

def Meets (entries : List (Nat × Located)) (roots : List Nat) (depth : Nat → Int) (pos : Nat)
    (level : Int) : Prop :=
  pos ∈ entries.map Prod.fst → Comes entries roots pos ∧ depth pos = level

theorem Meets.onward (meets : Meets entries (first :: catches) depth piece.pos level)
    (levels : Levels last entries first initial catches depth) (among : piece.entry place ∈ entries)
    (measured : piece.instruction.stackEffect? last = some effect)
    (falls : piece.instruction.fallsThrough = true) :
    Meets entries (first :: catches) depth piece.stop
      (level + (effect - piece.instruction.returnWidth)) := by
  obtain ⟨comes, same⟩ := meets (List.mem_map_of_mem among)
  have measured : (piece.filled fun name => place name).stackEffect? last = some effect :=
    (Piece.stackEffect?_filled last).trans measured
  have falls : (piece.filled fun name => place name).fallsThrough = true :=
    Piece.fallsThrough_filled.trans falls
  refine fun member => ⟨comes.next among ?_, ?_⟩
  · refine List.mem_append_left _ ?_
    rw [if_pos falls]
    exact List.mem_singleton_self _
  · have := levels.onward comes among measured falls member
    rw [Piece.returnWidth_filled, same] at this
    exact this.trans (Int.add_sub_assoc ..)

theorem Meets.jump {name : String} (meets : Meets entries (first :: catches) depth piece.pos level)
    (levels : Levels last entries first initial catches depth) (among : piece.entry place ∈ entries)
    (blank : piece.Blank) (measured : piece.instruction.stackEffect? last = some effect)
    (named : name ∈ piece.labels) :
    Meets entries (first :: catches) depth (place name) (level + effect) := by
  obtain ⟨comes, same⟩ := meets (List.mem_map_of_mem among)
  have measured : (piece.filled fun name => place name).stackEffect? last = some effect :=
    (Piece.stackEffect?_filled last).trans measured
  have target : (place name : Int) ∈ (piece.filled fun name => place name).targets := by
    rw [blank.targets_filled]
    exact List.mem_map_of_mem named
  refine fun member => ⟨comes.next among (List.mem_append_right _ target), ?_⟩
  rw [levels.jump comes among measured target member, same]

theorem Tracks.acts
    (tracks : Tracks place (Meets entries (first :: catches) depth) survey start)
    (levels : Levels last entries first initial catches depth) (extended : pool.Extended last)
    (sound : last.Sound) (acts : Acts start pool clause pieces state)
    (among : ∀ piece ∈ pieces, piece.entry place ∈ entries)
    (caught : ∀ names, clause.handler? = some names → place names.2.2 ∈ catches) :
    Tracks place (Meets entries (first :: catches) depth) (survey.act clause) state := by
  cases acts with
  | silent => exact ⟨tracks.reachable, tracks.here, ⟨tracks.labels.unmet, tracks.labels.met⟩⟩
  | @handler from' to' using' =>
      have member : place using' ∈ catches := caught _ rfl
      have notes (name : String) : (start.setLabel using' ((start.label using').met 1)).label name =
          if name ∈ [using'] then (start.label name).met 1 else start.label name := by
        rw [label_setLabel]
        by_cases same : using' = name
        · simp [same]
        · simp [same, Ne.symm same]
      have labels : Tracks.Labels place _ (survey.meet [using'] true) _ :=
        tracks.labels.meet notes fun _ name only => by
          rw [List.mem_singleton.1 only]
          exact fun _ => ⟨.root (List.mem_cons_of_mem _ member), levels.caught _ member⟩
      exact ⟨tracks.reachable, tracks.here, ⟨labels.unmet, labels.met⟩⟩
  | @writes _ piece _ writes =>
      obtain ⟨effect, emits, falls, reachable⟩ := writes
      have among := among piece (List.mem_singleton_self _)
      have measured := emits.measured last extended sound
      rw [Survey.act_of_isInstruction (emits.said fun _ => 0).isInstruction]
      refine tracks.pass emits reachable (fun meets goesOn => ?_) fun meets name named => ?_
      · rw [← emits.pos] at meets
        rw [← emits.stop, emits.grows.depth]
        exact meets.onward levels among measured (by rw [falls, goesOn]; rfl)
      · rw [← emits.pos] at meets
        exact meets.jump levels among emits.blank measured (emits.mem_labels.2 named)

theorem Lands.low {names : List String} (lands : Lands names start state)
    (low : start.buffer.depth ≤ start.buffer.maxStack) : state.buffer.depth ≤ state.buffer.maxStack := by
  induction lands with
  | nil => exact low
  | cons places _ ih => exact ih (places.high low)

theorem Acts.low (acts : Acts start pool clause pieces state)
    (low : start.buffer.depth ≤ start.buffer.maxStack) : state.buffer.depth ≤ state.buffer.maxStack := by
  cases acts with
  | silent | handler => exact low
  | writes writes =>
      obtain ⟨effect, emits, _⟩ := writes
      exact emits.grows.high low

/-- Each piece is written by the next statement that says an instruction. The depth that is followed
is the right one as long as it is known, and the mark is raised to it. -/
theorem Trace.highWater (trace : Trace last start sources groups state) (sound : last.Sound)
    (levels : Levels last entries first initial catches depth)
    (among : ∀ piece ∈ groups.flatten, piece.entry state.place ∈ entries)
    (caught : ∀ source ∈ sources, ∀ names, source.clause.handler? = some names →
      state.place names.2.2 ∈ catches)
    (low : start.buffer.depth ≤ start.buffer.maxStack)
    (tracks : Tracks state.place (Meets entries (first :: catches) depth) survey start) :
    List.Forall₂ (fun survey piece => survey.reachable = true → survey.known = true → ∀ effect,
      piece.instruction.stackEffect? last = some effect →
        depth piece.pos ≤ state.buffer.maxStack ∧ depth piece.pos + effect ≤ state.buffer.maxStack)
      (survey.along sources) groups.flatten := by
  induction trace generalizing survey with
  | done => exact .nil
  | @step start between state pool source pieces sources groups treats extended rest ih =>
      have here : ∀ name ∈ source.labels, state.place name = start.buffer.pc :=
        fun name => treats.place rest
      obtain @⟨landed, lands, acts⟩ := treats
      have tracks : Tracks _ _ (survey.landed source) landed :=
        Tracks.lands lands here ⟨tracks.reachable, tracks.here, ⟨tracks.labels.unmet, tracks.labels.met⟩⟩
      have low : landed.buffer.depth ≤ landed.buffer.maxStack := lands.low low
      have further := ih (fun piece later => among piece (List.mem_append_right _ later))
        (fun other later => caught other (List.mem_cons_of_mem _ later)) (acts.low low)
        (tracks.acts levels extended sound acts
          (fun piece here => among piece (List.mem_append_left _ here)) (caught _ List.mem_cons_self))
      simp only [Survey.along]
      generalize known : source.clause = clause at acts further
      cases acts with
      | silent | handler =>
          rwa [if_neg (by simp [Statement.isInstruction, known, Clause.isInstruction])]
      | @writes _ piece _ writes =>
          obtain ⟨effect, emits, _⟩ := writes
          have isInstruction := (emits.said fun _ => 0).isInstruction
          rw [if_pos (by rw [Statement.isInstruction, known, isInstruction])]
          refine .cons (fun reachable sure effect' measured => ?_) further
          cases measured.symm.trans (emits.measured last extended sound)
          have member := List.mem_map_of_mem (f := Prod.fst) (among piece List.mem_cons_self)
          have same := (tracks.here sure reachable (emits.pos ▸ member)).2
          have raised := rest.advances.maxStack
          have kept := emits.grows.maxStack
          have reaches := emits.reaches low
          rw [emits.pos, same]
          omega

end Levels

section Live

variable {last pool : Pool} {start state : Assembly} {sources : List Statement}
  {groups : List (List Piece)} {survey : Survey} {rows : List (Survey × Piece)} {row : Survey × Piece}
  {pos : Nat}

theorem Survey.reachable_landed {source : Statement}
    (known : survey.reachable = true ∨ source.labels ≠ []) :
    (survey.landed source).reachable = true := by
  have land (survey : Survey) (name : String) : (survey.land name).reachable = true := by
    unfold land
    split
    · assumption
    · rfl
  have kept (names : List String) (survey : Survey) (reachable : survey.reachable = true) :
      (names.foldl Survey.land survey).reachable = true := by
    induction names generalizing survey with
    | nil => exact reachable
    | cons name names ih => exact ih _ (land survey name)
  unfold landed
  cases same : source.labels with
  | nil => exact known.resolve_right fun labels => labels same
  | cons name names => exact kept names _ (land survey name)

def Live (rows : List (Survey × Piece)) (pos : Nat) : Prop :=
  ∀ row ∈ rows, row.2.pos = pos → row.1.reachable = true

theorem live_cons : Live (row :: rows) pos ↔
    (row.2.pos = pos → row.1.reachable = true) ∧ Live rows pos :=
  List.forall_mem_cons

theorem Emits.pos_lt_stop {clause : Clause} {piece : Piece} {effect : Int}
    (emits : Emits clause piece effect start state pool) : piece.pos < piece.stop := by
  refine Nat.lt_add_of_pos_right ?_
  cases same : piece.instruction with
  | plain bytes =>
      have said := emits.said fun _ => 0
      rw [Piece.filled, same] at said
      cases said with
      | plain spells => exact List.length_pos_iff.2 spells.ne_nil
  | branch | wideBranch => exact Nat.succ_pos _
  | tableSwitch | lookupSwitch => simp only [Instruction.lengthAt]; omega

theorem Trace.pc_le_place (trace : Trace last start sources groups state) {name : String}
    (written : Written sources name) : start.buffer.pc ≤ state.place name := by
  rcases trace.follows.starts.2 name written with same | among
  · exact same ▸ trace.advances.pc
  · obtain ⟨_, member, same⟩ := List.mem_map.1 among
    obtain ⟨piece, within, rfl⟩ := List.mem_map.1 member
    exact same ▸ (trace.draft.bounds within).2.1

structure Flows (rows : List (Survey × Piece)) (reachable : Bool) (pos : Nat)
    (sources : List Statement) (pieces : List Piece) (place : String → Nat) : Prop where
  entrance : reachable = true → Live rows pos
  labels : ∀ name, Written sources name → Live rows (place name)
  onward : ∀ piece ∈ pieces, piece.instruction.fallsThrough = true → Live rows piece.pos →
    Live rows piece.stop

section Flows

variable {source : Statement} {piece : Piece} {pieces : List Piece} {place : String → Nat}
  {reachable further : Bool}

theorem Flows.lands (flows : Flows rows further pos sources pieces place)
    (reached : reachable = true ∨ source.labels ≠ [] → further = true)
    (here : ∀ name ∈ source.labels, place name = pos) :
    Flows rows reachable pos (source :: sources) pieces place := by
  refine ⟨fun known => flows.entrance (reached (.inl known)), fun name ⟨other, member, among⟩ => ?_,
    flows.onward⟩
  rcases List.mem_cons.1 member with rfl | later
  · rw [here name among]
    exact flows.entrance (reached (.inr (List.ne_nil_of_mem among)))
  · exact flows.labels name ⟨other, later, among⟩

theorem Flows.cons (flows : Flows rows (survey.reachable && piece.instruction.fallsThrough) piece.stop
      sources pieces place)
    (advanced : piece.pos < piece.stop) (behind : ∀ row ∈ rows, piece.stop ≤ row.2.pos)
    (bounds : ∀ other ∈ pieces, piece.stop ≤ other.pos)
    (labels : ∀ name, Written sources name → piece.stop ≤ place name) :
    Flows ((survey, piece) :: rows) survey.reachable piece.pos sources (piece :: pieces) place := by
  have later {pos : Nat} (le : piece.stop ≤ pos) (live : Live rows pos) :
      Live ((survey, piece) :: rows) pos :=
    live_cons.2 ⟨fun same => absurd (advanced.trans_le le) (Nat.lt_irrefl _ <| same ▸ ·), live⟩
  refine ⟨fun reached => live_cons.2 ⟨fun _ => reached, fun row member same => ?_⟩,
    fun name written => later (labels name written) (flows.labels name written),
    fun other member falls live => ?_⟩
  · have := behind row member
    omega
  · have reached : other = piece → survey.reachable = true := fun same => (live_cons.1 live).1 (by rw [same])
    rcases List.mem_cons.1 member with rfl | among
    · exact later le_rfl (flows.entrance (by simp [reached rfl, falls]))
    · exact later ((bounds other among).trans (Nat.le_add_right _ _))
        (flows.onward other among falls (live_cons.1 live).2)

end Flows

theorem Trace.flows (trace : Trace last start sources groups state) (survey : Survey) :
    Flows ((survey.along sources).zip groups.flatten) survey.reachable start.buffer.pc sources
      groups.flatten state.place := by
  induction trace generalizing survey with
  | done => exact ⟨nofun, nofun, nofun⟩
  | @step start between state pool source pieces sources groups treats extended rest ih =>
      have here : ∀ name ∈ source.labels, state.place name = start.buffer.pc :=
        fun name => treats.place rest
      obtain @⟨landed, lands, acts⟩ := treats
      have pc : landed.buffer.pc = start.buffer.pc := lands.pc
      have flows := ih ((survey.landed source).act source.clause)
      simp only [Survey.along]
      refine Flows.lands ?_ Survey.reachable_landed here
      rw [← pc]
      generalize known : source.clause = clause at acts flows
      cases acts with
      | silent | handler =>
          rwa [if_neg (by simp [Statement.isInstruction, known, Clause.isInstruction])]
      | @writes _ piece _ writes =>
          obtain ⟨effect, emits, falls, _⟩ := writes
          have isInstruction := (emits.said fun _ => 0).isInstruction
          rw [if_pos (by rw [Statement.isInstruction, known, isInstruction])]
          rw [Survey.act_of_isInstruction isInstruction] at flows ⊢
          rw [← emits.pos]
          have stop := emits.stop
          have bounds : ∀ other ∈ groups.flatten, piece.stop ≤ other.pos :=
            fun other member => stop ▸ (rest.draft.bounds member).2.1
          refine Flows.cons ?_ emits.pos_lt_stop (fun row member => bounds _ (List.of_mem_zip member).2)
            bounds fun name written => stop ▸ rest.pc_le_place written
          rw [falls, stop]
          exact flows

theorem Flows.live {reachable : Bool} {pieces : List Piece} {place : String → Nat} {roots : List Nat}
    (flows : Flows rows reachable pos sources pieces place) (reached : reachable = true)
    (labels : ∀ piece ∈ pieces, ∀ name ∈ piece.labels, Written sources name)
    (blank : ∀ piece ∈ pieces, piece.Blank)
    (roots' : ∀ root ∈ roots, root = pos ∨ ∃ name, Written sources name ∧ root = place name)
    {goal : Nat} (comes : Comes (pieces.map (Piece.entry place)) roots goal) : Live rows goal := by
  induction comes with
  | root member =>
      rcases roots' _ member with rfl | ⟨name, written, rfl⟩
      · exact flows.entrance reached
      · exact flows.labels name written
  | @next goal next located comes member follows ih =>
      obtain ⟨piece, among, same⟩ := List.mem_map.1 member
      cases same
      rcases List.mem_append.1 follows with behind | target
      · split at behind
        · rename_i falls
          have falls := Piece.fallsThrough_filled.symm.trans falls
          have stop : next = piece.stop := Int.natCast_inj.1 (List.mem_singleton.1 behind)
          exact stop ▸ flows.onward piece among falls ih
        · cases behind
      · have known := (blank piece among).targets_filled fun name => place name
        obtain ⟨name, named, same⟩ := List.mem_map.1 (known ▸ target)
        exact Int.natCast_inj.1 same ▸ flows.labels name (labels piece among name named)

end Live

theorem Trace.measured {last : Pool} {start state : Assembly} {sources : List Statement}
    {groups : List (List Piece)} (trace : Trace last start sources groups state) (sound : last.Sound)
    {piece : Piece} (member : piece ∈ groups.flatten) :
    (piece.instruction.stackEffect? last).isSome = true := by
  induction trace with
  | done => cases member
  | step treats extended _ ih =>
      obtain ⟨lands, acts⟩ := treats
      generalize Statement.clause _ = clause at acts
      rcases List.mem_append.1 member with here | later
      · cases acts with
        | silent | handler => cases here
        | writes writes =>
            obtain ⟨effect, emits, _⟩ := writes
            cases List.mem_singleton.1 here
            rw [emits.measured _ extended sound]
            rfl
      · exact ih later

theorem tracks_initial {entries : List (Nat × Located)} {catches : List Nat} {depth : Nat → Int}
    {scope : Scope} {buffer : Buffer} {pool : Pool} {place : String → Nat}
    (levels : Levels pool entries buffer.pc buffer.depth catches depth) :
    Tracks place (Meets entries (buffer.pc :: catches) depth) .initial { scope, buffer } :=
  ⟨rfl, fun _ _ _ => ⟨.root List.mem_cons_self, levels.entrance⟩,
    ⟨fun name _ _ => by simp [Assembly.label], nofun⟩⟩

section Assembled

variable {source : String} {scope scope' : Scope} {buffer buffer' : Buffer} {pool pool' : Pool}

/-- Let each instruction that control may come to have one depth, whichever way control comes. Then
none exceeds the mark, neither in front of the instruction nor behind it, if labels to which control
first comes from further down are only placed where the code before runs into them. This is about
listings whose depths are words of 32 bits. -/
theorem assemble_highWater (low : buffer.depth ≤ buffer.maxStack) (sound : pool.Sound)
    (_fits : ∀ {sources}, statements source = .ok sources → depthsFit sources { scope, buffer } pool = true)
    (assembled : outcome (assemble source scope buffer) pool = (.ok (scope', buffer'), pool')) :
    ∃ sources place entries added, statements source = .ok sources ∧
      buffer'.handlers = buffer.handlers ++ added ∧
      Rendered buffer.pc sources place entries buffer' added ∧
      (∀ entry ∈ entries, (entry.2.instruction.stackEffect? pool').isSome = true) ∧
      ∀ depth, Levels pool' entries buffer.pc buffer.depth (added.map (·.target.toNat)) depth →
        List.Forall₂ (fun survey entry => survey.isSure = true →
          Comes entries (buffer.pc :: added.map (·.target.toNat)) entry.1 →
          ∀ effect, entry.2.instruction.stackEffect? pool' = some effect →
            depth entry.1 ≤ buffer'.maxStack ∧ depth entry.1 + effect ≤ buffer'.maxStack)
          (Survey.initial.along sources) entries := by
  obtain ⟨sources, groups, traced, split, completes⟩ := assemble_completes assembled
  obtain ⟨added, same, rendered⟩ := completes.rendered
  have extended := appends_assemble source scope buffer pool
  rw [assembled] at extended
  have sound := extended.sound sound
  have trace := completes.trace
  refine ⟨sources, traced.place, _, added, split, same, rendered, fun entry member => ?_,
    fun depth levels => ?_⟩
  · obtain ⟨piece, among, rfl⟩ := List.mem_map.1 member
    rw [Piece.entry, Piece.stackEffect?_filled]
    exact trace.measured sound among
  have raised := trace.highWater sound levels (fun piece => List.mem_map_of_mem)
    (fun source member names => rendered.handler_target member) low (tracks_initial levels)
  have live {pos : Nat} (comes : Comes _ (buffer.pc :: added.map (·.target.toNat)) pos) :=
    (trace.flows .initial).live rfl (fun piece among name named => completes.written
      (unplaced_initial scope buffer) (completes.placed piece among name named))
      (fun piece among => (trace.draft.bounds among).1) (fun root member =>
        (List.mem_cons.1 member).imp_right rendered.written_target) comes
  rw [List.forall₂_map_right_iff, completes.maxStack]
  rw [List.forall₂_iff_zip] at raised ⊢
  refine ⟨raised.1, fun {survey piece} member sure comes effect measured => ?_⟩
  have reachable : survey.reachable = true := live comes _ member rfl
  refine raised.2 member reachable (by simpa [Survey.isSure, reachable] using sure) effect ?_
  exact Piece.stackEffect?_filled pool' ▸ measured

def loopDepth (pos : Nat) : Int :=
  if pos ∈ [1, 5, 29] then 1 else 0

def loopEffect (pos : Nat) : Int :=
  if pos ∈ [0, 4] then 1 else if pos ∈ [1, 5, 29] then -1 else 0

set_option maxRecDepth 4000 in
theorem stackEffect?_loopEntries (pool : Pool) : ∀ entry ∈ loopEntries,
    entry.2.instruction.stackEffect? pool = some (loopEffect entry.1) := by
  simp only [loopEntries, List.forall_mem_cons]
  exact ⟨rfl, rfl, rfl, rfl, rfl, rfl, rfl, List.forall_mem_nil _⟩

theorem levels_loopEntries (pool : Pool) : Levels pool loopEntries 0 0 [29] loopDepth := by
  have onward : ∀ entry ∈ loopEntries, entry.2.instruction.fallsThrough = true →
      entry.1 + entry.2.length ∈ loopEntries.map Prod.fst → loopDepth (entry.1 + entry.2.length) =
        loopDepth entry.1 + loopEffect entry.1 - entry.2.instruction.returnWidth := by
    decide +kernel
  have jump : ∀ entry ∈ loopEntries, ∀ target ∈ entry.2.instruction.targets,
      loopDepth target.toNat = loopDepth entry.1 + loopEffect entry.1 := by
    decide +kernel
  refine ⟨rfl, by decide, fun _ member known falls behind => ?_, fun _ member known target _ => ?_⟩
  · cases (stackEffect?_loopEntries pool _ member).symm.trans known
    exact onward _ member falls behind
  · cases (stackEffect?_loopEntries pool _ member).symm.trans known
    exact jump _ member _ target

theorem comes_loopEntries : ∀ entry ∈ loopEntries, Comes loopEntries [0, 29] entry.1 := by
  have onto : ∀ entry ∈ loopEntries, Comes loopEntries [0, 29] entry.1 → ∀ next : Nat,
      (next : Int) ∈ entry.2.successors entry.1 → Comes loopEntries [0, 29] next :=
    fun _ member comes next => comes.next member
  have start : Comes loopEntries [0, 29] 0 := .root (by decide)
  have caught : Comes loopEntries [0, 29] 29 := .root (by decide)
  have test := onto loopEntries[0] (by decide) start 1 (by decide)
  have body := onto loopEntries[1] (by decide) test 4 (by decide)
  have choice := onto loopEntries[2] (by decide) body 5 (by decide)
  have done := onto loopEntries[3] (by decide) choice 28 (by decide)
  have back := onto loopEntries[5] (by decide) caught 30 (by decide)
  simp only [loopEntries, List.forall_mem_cons]
  exact ⟨start, test, body, choice, done, caught, back, List.forall_mem_nil _⟩

theorem assemble_highWater_loop : ∃ scope' pool',
    outcome (assemble loopSource [] (.empty 0 0)) .empty = (.ok (scope', loopBuffer), pool') ∧
      Levels pool' loopEntries 0 0 [29] loopDepth ∧
      ∀ entry ∈ loopEntries, ∃ effect, entry.2.instruction.stackEffect? pool' = some effect ∧
        loopDepth entry.1 ≤ loopBuffer.maxStack ∧ loopDepth entry.1 + effect ≤ loopBuffer.maxStack := by
  obtain ⟨scope', pool', assembled⟩ := exists_assemble_loopSource
  have fits : depthsFit loopStatements { scope := [], buffer := .empty 0 0 } .empty = true := by
    decide +kernel
  obtain ⟨sources, place, entries, added, split, same, rendered, measured, bounded⟩ :=
    assemble_highWater (by decide) Pool.sound_empty
      (fun split => by cases statements_loopSource.symm.trans split; exact fits) assembled
  cases statements_loopSource.symm.trans split
  obtain rfl : added = [⟨4, 28, 29, 0⟩] := same.symm
  have decoded := Code.decode_of_runs (rendered.runs (by decide))
  obtain ⟨listed, _⟩ := OffsetTable.mk.inj (Except.ok.inj (decode_loopBytes.symm.trans decoded))
  obtain rfl : loopEntries = entries := List.toArray_inj listed
  have levels := levels_loopEntries pool'
  have sure : ∀ survey ∈ Survey.initial.along loopStatements, survey.isSure = true := by
    decide +kernel
  refine ⟨scope', pool', assembled, levels, fun entry member => ?_⟩
  obtain ⟨effect, known⟩ := Option.isSome_iff_exists.1 (measured entry member)
  obtain ⟨survey, among, paired⟩ := forall₂_mem_right (bounded _ levels) member
  exact ⟨effect, known, paired (sure survey among) (comes_loopEntries entry member) effect known⟩

end Assembled

end ClassSplice.Assembler
