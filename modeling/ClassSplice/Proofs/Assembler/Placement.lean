import ClassSplice.Proofs.Assembler.Draft

namespace ClassSplice.Assembler

open Code (Buffer Handler Holds Instruction Listing Located Opcode Runs)
open Pool (Extended)

/-- Instructions in a row, one for each statement that says one, with the labels of every statement at
the offset of what follows. -/
inductive Follows (place : String → Nat) : Nat → List Statement → List (Nat × Located) → Nat → Prop
  | done (pos : Nat) : Follows place pos [] [] pos
  | silent {pos stop : Nat} {source : Statement} {sources : List Statement}
      {entries : List (Nat × Located)} (labels : ∀ name ∈ source.labels, place name = pos)
      (silent : source.isInstruction = false) (rest : Follows place pos sources entries stop) :
      Follows place pos (source :: sources) entries stop
  | instruction {pos stop : Nat} {source : Statement} {sources : List Statement}
      {located : Located} {entries : List (Nat × Located)}
      (labels : ∀ name ∈ source.labels, place name = pos)
      (said : source.clause.Says (fun name => place name) located.instruction)
      (rest : Follows place (pos + located.length) sources entries stop) :
      Follows place pos (source :: sources) ((pos, located) :: entries) stop

/-- An instruction of a row starts at the offset, or the row ends there. -/
def Starts (entries : List (Nat × Located)) (stop pos : Nat) : Prop :=
  pos = stop ∨ pos ∈ entries.map Prod.fst

def Written (sources : List Statement) (name : String) : Prop :=
  ∃ source ∈ sources, name ∈ source.labels

theorem Follows.starts {place : String → Nat} {pos stop : Nat} {sources : List Statement}
    {entries : List (Nat × Located)} (follows : Follows place pos sources entries stop) :
    Starts entries stop pos ∧ ∀ name, Written sources name → Starts entries stop (place name) := by
  induction follows with
  | done pos => exact ⟨.inl rfl, fun name ⟨_, member, _⟩ => nomatch member⟩
  | silent labels silent rest ih =>
      refine ⟨ih.1, fun name ⟨source, member, among⟩ => ?_⟩
      rcases List.mem_cons.1 member with rfl | later
      · exact labels name among ▸ ih.1
      · exact ih.2 name ⟨source, later, among⟩
  | instruction labels said rest ih =>
      refine ⟨.inr List.mem_cons_self, fun name ⟨source, member, among⟩ => ?_⟩
      rcases List.mem_cons.1 member with rfl | later
      · exact .inr (labels name among ▸ List.mem_cons_self)
      · exact (ih.2 name ⟨source, later, among⟩).imp_right (List.mem_cons_of_mem _)

theorem Follows.said {place : String → Nat} {pos stop : Nat} {sources : List Statement}
    {entries : List (Nat × Located)} (follows : Follows place pos sources entries stop)
    {entry : Nat × Located} (member : entry ∈ entries) :
    ∃ source ∈ sources, source.clause.Says (fun name => place name) entry.2.instruction := by
  induction follows with
  | done => cases member
  | silent labels silent rest ih =>
      obtain ⟨source, among, said⟩ := ih member
      exact ⟨source, List.mem_cons_of_mem _ among, said⟩
  | instruction labels said rest ih =>
      rcases List.mem_cons.1 member with rfl | later
      · exact ⟨_, List.mem_cons_self, said⟩
      · obtain ⟨source, among, said⟩ := ih later
        exact ⟨source, List.mem_cons_of_mem _ among, said⟩

theorem Clause.Says.isInstruction {place : String → Int} {clause : Clause} {instruction : Instruction}
    (said : clause.Says place instruction) : clause.isInstruction = true := by
  cases said <;> rfl

theorem Clause.Says.ordinary {place : String → Int} {clause : Clause} {instruction : Instruction}
    (said : clause.Says place instruction) : clause.handler? = none ∧ clause.names = clause.labels := by
  cases said <;> exact ⟨rfl, rfl⟩

theorem Clause.mem_names_of_handler {clause : Clause} {names : String × String × String}
    (declared : clause.handler? = some names) : names.2.2 ∈ clause.names := by
  cases clause with
  | handler =>
      cases declared
      simp [Clause.names]
  | silent | plain | branch | tableSwitch | lookupSwitch => cases declared

theorem Clause.Says.targets {place : String → Int} {clause : Clause} {instruction : Instruction}
    (said : clause.Says place instruction) : instruction.targets.Perm (clause.labels.map place) := by
  cases said with
  | plain | branch | wideBranch | tableSwitch => exact .refl _
  | lookupSwitch increasing written =>
      refine List.Perm.cons _ ((written.map Prod.snd).trans ?_)
      rw [List.map_map, List.map_map]
      exact .refl _

def PendingHandler.names (pending : PendingHandler) : String × String × String :=
  (pending.start, pending.stop, pending.target)

section Trace

variable {last pool : Pool} {start state : Assembly} {names : List String} {name : String} {pos : Nat}
  {source : Statement} {sources : List Statement} {pieces : List Piece} {groups : List (List Piece)}

theorem Lands.placed (lands : Lands names start state) (member : name ∈ names) :
    (state.label name).pos = some start.buffer.pc := by
  induction lands with
  | nil => cases member
  | @cons first names start between state places rest ih =>
      have here : between.buffer.pc = start.buffer.pc := congrArg Array.size places.bytes
      rcases List.mem_cons.1 member with rfl | later
      · exact rest.advances.pos (by rw [places.label, if_pos rfl])
      · exact here ▸ ih later

theorem Lands.written (lands : Lands names start state) (placed : (state.label name).pos = some pos) :
    (start.label name).pos = some pos ∨ name ∈ names := by
  induction lands with
  | nil => exact .inl placed
  | @cons first names start between state places rest ih =>
      rcases ih placed with earlier | later
      · rw [places.label] at earlier
        split at earlier
        · rename_i same
          exact .inr (same ▸ List.mem_cons_self)
        · exact .inl earlier
      · exact .inr (List.mem_cons_of_mem _ later)

theorem Trace.written (trace : Trace last start sources groups state)
    (placed : (state.label name).pos = some pos) :
    (start.label name).pos = some pos ∨ Written sources name := by
  induction trace with
  | done => exact .inl placed
  | step treats _ _ ih =>
      obtain ⟨lands, acts⟩ := treats
      rcases ih placed with earlier | ⟨source, member, among⟩
      · rw [acts.pos] at earlier
        exact (lands.written earlier).imp_right fun among => ⟨_, List.mem_cons_self, among⟩
      · exact .inr ⟨source, List.mem_cons_of_mem _ member, among⟩

theorem Treats.place {between : Assembly} (treats : Treats start pool source pieces between)
    (rest : Trace last between sources groups state) (member : name ∈ source.labels) :
    state.place name = start.buffer.pc := by
  obtain ⟨lands, acts⟩ := treats
  exact (isPlaced_of_pos (rest.advances.pos (acts.advances.pos (lands.placed member)))).2

theorem Emits.stop {clause : Clause} {piece : Piece} {effect : Int}
    (emits : Emits clause piece effect start state pool) : piece.stop = state.buffer.pc := by
  rw [emits.grows.pc, ← emits.pos, Instruction.length_spell, Piece.stop]

theorem Trace.follows (trace : Trace last start sources groups state) :
    Follows state.place start.buffer.pc sources (groups.flatten.map (Piece.entry state.place))
      state.buffer.pc := by
  induction trace with
  | done => exact .done _
  | @step start between state pool source pieces sources groups treats _ rest ih =>
      have labels : ∀ name ∈ source.labels, state.place name = start.buffer.pc :=
        fun name => treats.place rest
      obtain ⟨lands, acts⟩ := treats
      have landed : _ = start.buffer.pc := lands.pc
      generalize known : source.clause = clause at acts
      cases acts with
      | silent =>
          exact .silent labels (by rw [Statement.isInstruction, known]; rfl) (landed ▸ ih)
      | handler =>
          exact .silent labels (by rw [Statement.isInstruction, known]; rfl) (landed ▸ ih)
      | @writes _ piece _ writes =>
          obtain ⟨effect, emits, _⟩ := writes
          have here : piece.pos = start.buffer.pc := emits.pos.trans landed
          rw [← emits.stop] at ih
          rw [← here] at labels ⊢
          refine .instruction labels ?_ ih
          rw [known]
          exact emits.said _

theorem Trace.treated (trace : Trace last start sources groups state) (member : source ∈ sources) :
    ∃ before pool pieces after, Treats before pool source pieces after ∧
      ∀ piece ∈ pieces, piece ∈ groups.flatten := by
  induction trace with
  | done => cases member
  | step treats _ _ ih =>
      rcases List.mem_cons.1 member with rfl | later
      · exact ⟨_, _, _, _, treats, fun piece => List.mem_append_left _⟩
      · obtain ⟨before, pool, pieces, after, treats, among⟩ := ih later
        exact ⟨before, pool, pieces, after, treats, fun piece within =>
          List.mem_append_right _ (among piece within)⟩

theorem Lands.handlers (lands : Lands names start state) : state.handlers = start.handlers := by
  induction lands with
  | nil => rfl
  | cons places _ ih => exact ih.trans places.handlers

theorem Acts.handlers {clause : Clause} (acts : Acts start pool clause pieces state) :
    state.handlers.toList.map PendingHandler.names =
      start.handlers.toList.map PendingHandler.names ++ clause.handler?.toList := by
  cases acts with
  | silent => simp [Clause.handler?]
  | handler => simp [Clause.handler?, PendingHandler.names]
  | writes writes =>
      obtain ⟨effect, emits, _⟩ := writes
      simp [emits.notes.handlers, (emits.said fun _ => 0).ordinary.1]

theorem Trace.handlers (trace : Trace last start sources groups state) :
    state.handlers.toList.map PendingHandler.names =
      start.handlers.toList.map PendingHandler.names ++ sources.filterMap (·.clause.handler?) := by
  induction trace with
  | done => simp
  | @step start between state pool source pieces sources groups treats _ rest ih =>
      obtain ⟨lands, acts⟩ := treats
      rw [ih, acts.handlers, lands.handlers, List.append_assoc, List.filterMap_cons]
      cases source.clause.handler? <;> rfl

theorem Emits.mem_labels {clause : Clause} {piece : Piece} {effect : Int}
    (emits : Emits clause piece effect start state pool) : name ∈ piece.labels ↔ name ∈ clause.labels := by
  let place (other : String) : Int := if other = name then 1 else 0
  have marked (names : List String) : 1 ∈ names.map place ↔ name ∈ names := by simp [place]
  have same := (emits.said place).targets
  rw [emits.blank.targets_filled] at same
  exact (marked _).symm.trans (same.mem_iff.trans (marked _))

end Trace

section Completes

variable {last : Pool} {start : Assembly} {sources : List Statement} {groups : List (List Piece)}
  {traced : Assembly} {final : Buffer}

theorem Completes.written (completes : Completes last start sources groups traced final)
    (unplaced : ∀ name, (start.label name).pos = none) {name : String} (placed : traced.IsPlaced name) :
    Written sources name := by
  refine (completes.trace.written placed).resolve_left fun earlier => ?_
  rw [unplaced] at earlier
  cases earlier

theorem Completes.named (completes : Completes last start sources groups traced final)
    (unplaced : ∀ name, (start.label name).pos = none)
    {source : Statement} (member : source ∈ sources) {name : String} (named : name ∈ source.clause.names) :
    Written sources name := by
  apply completes.written unplaced
  obtain ⟨before, pool, pieces, after, ⟨lands, acts⟩, among⟩ := completes.trace.treated member
  generalize known : source.clause = clause at acts named
  cases acts with
  | silent => cases named
  | @handler from' to' using' =>
      have listed : (from', to', using') ∈ traced.handlers.toList.map PendingHandler.names := by
        rw [completes.trace.handlers]
        exact List.mem_append_right _ (List.mem_filterMap.2 ⟨source, member, by rw [known]; rfl⟩)
      obtain ⟨pending, within, same⟩ := List.mem_map.1 listed
      cases same
      obtain ⟨added, _, entered⟩ := completes.handlers
      obtain ⟨handler, _, enters⟩ := forall₂_mem_right entered.flip within
      simp only [Clause.names, List.mem_cons, List.not_mem_nil, or_false] at named
      rcases named with rfl | rfl | rfl
      · exact enters.start
      · exact enters.stop
      · exact enters.target
  | writes writes =>
      obtain ⟨effect, emits, _⟩ := writes
      rw [(emits.said fun _ => 0).ordinary.2] at named
      exact completes.placed _ (among _ (List.mem_singleton_self _)) _ (emits.mem_labels.2 named)

end Completes

/-- The code of a buffer from an offset on is what statements say, where labels lie at these places,
and these are the handlers that they declare. -/
structure Rendered (start : Nat) (sources : List Statement) (place : String → Nat)
    (entries : List (Nat × Located)) (buffer : Buffer) (handlers : List Handler) : Prop where
  runs : buffer.pc ≤ 2147483647 → Runs buffer.bytes start entries buffer.pc
  /-- Instructions without displacements are there whatever the size. -/
  plain : ∀ entry ∈ entries, ∀ bytes, entry.2.instruction = .plain bytes →
    Holds buffer.bytes entry.1 bytes
  follows : Follows place start sources entries buffer.pc
  named : ∀ source ∈ sources, ∀ name ∈ source.clause.names, Written sources name
  starts : ∀ name, Written sources name → Starts entries buffer.pc (place name)
  handlers : List.Forall₂ (fun (names : String × String × String) (handler : Handler) =>
    handler.Spans (place names.1) (place names.2.1) (place names.2.2))
    (sources.filterMap (·.clause.handler?)) handlers

section Rendered

variable {start : Nat} {sources : List Statement} {place : String → Nat}
  {entries : List (Nat × Located)} {buffer : Buffer} {handlers : List Handler}
  (rendered : Rendered start sources place entries buffer handlers)

include rendered

theorem Rendered.targets {entry : Nat × Located} (member : entry ∈ entries) {target : Int}
    (known : target ∈ entry.2.instruction.targets) :
    ∃ pos : Nat, target = pos ∧ Starts entries buffer.pc pos := by
  obtain ⟨source, among, said⟩ := rendered.follows.said member
  obtain ⟨name, named, rfl⟩ := List.mem_map.1 (said.targets.mem_iff.1 known)
  rw [← said.ordinary.2] at named
  exact ⟨place name, rfl, rendered.starts name (rendered.named source among name named)⟩

theorem Rendered.handler_target {source : Statement} (member : source ∈ sources)
    {names : String × String × String} (declared : source.clause.handler? = some names) :
    place names.2.2 ∈ handlers.map (·.target.toNat) := by
  have listed : names ∈ sources.filterMap (·.clause.handler?) :=
    List.mem_filterMap.2 ⟨source, member, declared⟩
  obtain ⟨handler, among, spans⟩ := forall₂_mem_right rendered.handlers.flip listed
  exact List.mem_map.2 ⟨handler, among, spans.target⟩

theorem Rendered.written_target {pos : Nat} (member : pos ∈ handlers.map (·.target.toNat)) :
    ∃ name, Written sources name ∧ pos = place name := by
  obtain ⟨handler, among, rfl⟩ := List.mem_map.1 member
  obtain ⟨names, listed, spans⟩ := forall₂_mem_right rendered.handlers among
  obtain ⟨source, member, declared⟩ := List.mem_filterMap.1 listed
  exact ⟨names.2.2, rendered.named source member _ (Clause.mem_names_of_handler declared), spans.target⟩

end Rendered

theorem unplaced_initial (scope : Scope) (buffer : Buffer) (name : String) :
    (({ scope, buffer } : Assembly).label name).pos = none := by
  simp [Assembly.label]

theorem Completes.rendered {scope : Scope} {buffer final : Buffer} {last : Pool}
    {sources : List Statement} {groups : List (List Piece)} {traced : Assembly}
    (completes : Completes last { scope, buffer } sources groups traced final) :
    ∃ added, final.handlers = buffer.handlers ++ added ∧
      Rendered buffer.pc sources traced.place (groups.flatten.map (Piece.entry traced.place)) final
        added := by
  obtain ⟨added, same, entered⟩ := completes.handlers
  have follows := completes.trace.follows
  rw [← completes.pc] at follows
  refine ⟨added, same, completes.runs, fun entry member bytes plain => ?_, follows,
    fun source member name => completes.named (unplaced_initial scope buffer) member,
    follows.starts.2, ?_⟩
  · obtain ⟨piece, among, rfl⟩ := List.mem_map.1 member
    exact completes.plain piece among bytes (Piece.eq_plain_of_filled plain)
  · have handlers := completes.trace.handlers
    simp only [List.map_nil, List.nil_append] at handlers
    rw [← handlers, List.forall₂_map_left_iff]
    exact entered.imp fun pending handler enters => enters.spans

section Assembled

variable {source : String} {scope scope' : Scope} {buffer buffer' : Buffer} {pool pool' : Pool}

theorem assemble_runs
    (assembled : outcome (assemble source scope buffer) pool = (.ok (scope', buffer'), pool'))
    (small : buffer'.pc ≤ 2147483647) :
    ∃ entries, Runs buffer'.bytes buffer.pc entries buffer'.pc ∧
      ∀ entry ∈ entries, ∀ target ∈ entry.2.instruction.targets,
        ∃ pos : Nat, target = pos ∧ Starts entries buffer'.pc pos := by
  obtain ⟨sources, groups, traced, _, completes⟩ := assemble_completes assembled
  obtain ⟨added, _, rendered⟩ := completes.rendered
  exact ⟨_, rendered.runs small, fun entry member target => rendered.targets member⟩

def loopSource : String :=
  "catch any from b to d using h\nt: iload_0\nifeq d\nb: iload_0\n" ++
    "tableswitch 1 t d default t\nd: return\nh: pop\ngoto d"

def loopStatements : List Statement :=
  [⟨1, [.word "catch", .word "any", .word "from", .word "b", .word "to", .word "d", .word "using",
      .word "h"]⟩,
    ⟨2, [.word "t:", .word "iload_0"]⟩, ⟨3, [.word "ifeq", .word "d"]⟩,
    ⟨4, [.word "b:", .word "iload_0"]⟩,
    ⟨5, [.word "tableswitch", .word "1", .word "t", .word "d", .word "default", .word "t"]⟩,
    ⟨6, [.word "d:", .word "return"]⟩, ⟨7, [.word "h:", .word "pop"]⟩, ⟨8, [.word "goto", .word "d"]⟩]

def loopBytes : Array UInt8 :=
  #[0x1a, 0x99, 0x00, 0x1b, 0x1a, 0xaa, 0x00, 0x00, 0xff, 0xff, 0xff, 0xfb, 0x00, 0x00, 0x00, 0x01,
    0x00, 0x00, 0x00, 0x02, 0xff, 0xff, 0xff, 0xfb, 0x00, 0x00, 0x00, 0x17, 0xb1, 0x57, 0xa7, 0xff, 0xfe]

def loopEntries : List (Nat × Located) :=
  [(0, ⟨1, .plain [0x1a]⟩), (1, ⟨3, .branch 0x99 28⟩), (4, ⟨1, .plain [0x1a]⟩),
    (5, ⟨23, .tableSwitch 0 1 2 [0, 28]⟩), (28, ⟨1, .plain [0xb1]⟩), (29, ⟨1, .plain [0x57]⟩),
    (30, ⟨3, .branch 0xa7 28⟩)]

theorem statements_loopSource : statements loopSource = .ok loopStatements := by
  cbv

set_option maxRecDepth 4000 in
theorem decode_loopBytes : Listing.decode loopBytes = .ok ⟨loopEntries.toArray, 33⟩ := by
  cbv

def loopBuffer : Buffer :=
  ⟨loopBytes, 0, 1, 0, [⟨4, 28, 29, 0⟩]⟩

theorem exists_assemble_loopSource : ∃ scope' pool',
    outcome (assemble loopSource [] (.empty 0 0)) .empty = (.ok (scope', loopBuffer), pool') := by
  have made : assembled? loopStatements [] (.empty 0 0) .empty =
      some (loopBuffer, .startingAt 1) := by
    decide +kernel
  obtain ⟨scope', pool', assembled, _⟩ := exists_assembled statements_loopSource made
  exact ⟨scope', pool', assembled⟩

end Assembled

end ClassSplice.Assembler
