import ClassSplice.Proofs.Assembler.Branching
import ClassSplice.Proofs.Assembler.Plain

namespace ClassSplice.Assembler

open Code (Buffer Instruction Opcode)
open Descriptor (FieldType MethodType ValueKind)

variable {start state : Assembly} {pool : Pool} {bytes added : List UInt8} {fixups : List Fixup}
  {growth : Int} {opcode : Opcode}

theorem isSome_form?_of_mnemonic {mnemonic : String} (known : Opcode.ofMnemonic? mnemonic = some opcode) :
    opcode.form?.isSome = true := by
  obtain ⟨index, found, rfl⟩ := Option.map_eq_some_iff.1 known
  obtain ⟨inRange, _⟩ := Array.findIdx?_eq_some_iff_getElem.1 found
  have size : Opcode.table.size = 202 := rfl
  have same : (UInt8.ofNat index).toNat = index := by
    rw [UInt8.toNat_ofNat']
    omega
  simp only [Opcode.form?, Opcode.facts?, same, Array.getElem?_eq_getElem inRange, Option.map_some,
    Option.isSome_some]

theorem leads_load (between : Opcode.iload ≤ opcode ∧ opcode ≤ Opcode.aload) (slot : Nat) :
    Leads (fun state _ => Ready start state)
      (emitChecked (·.addLoad slot (kindFrom Opcode.iload opcode))) fun _ => Laid opcode start := by
  apply leads_emitChecked_laid
  intro before after pool added
  rw [← ((row opcode).load between).1]
  exact (moves_load _).lays added

theorem leads_store (between : Opcode.istore ≤ opcode ∧ opcode ≤ Opcode.astore) (slot : Nat) :
    Leads (fun state _ => Ready start state)
      (emitChecked (·.addStore slot (kindFrom Opcode.istore opcode))) fun _ => Laid opcode start := by
  apply leads_emitChecked_laid
  intro before after pool added
  rw [← ((row opcode).store between).1]
  exact (moves_store _).lays added

theorem leads_emit_simple {change : Buffer → Buffer} (operands : List UInt8)
    (simple : Simple opcode (operands.length + 1)) (steady : opcode.hasVariableGrowth = false)
    (grows : ∀ buffer, Buffer.Grows (opcode :: operands) opcode.growth buffer (change buffer)) :
    Leads (fun state _ => Ready start state) (emit change) fun _ => Laid opcode start :=
  leads_emit_laid fun buffer _ => ⟨_, _, simple.lays_steady steady (grows buffer)⟩

theorem Emits.reachable {clause : Clause} {piece : Piece} {effect : Int}
    (emits : Emits clause piece effect start state pool) (reachable : Bool) :
    Emits clause piece effect start { state with reachable } pool :=
  ⟨emits.pos, emits.grows, emits.reaches, ⟨emits.notes.label, emits.notes.fixups, emits.notes.handlers⟩,
    emits.blank, emits.wellFormed, emits.measured, emits.said, emits.fits⟩

theorem leads_ending {clause : Clause} :
    Leads (Issues clause opcode start)
      (if opcode.endsFlow then modify fun state => { state with reachable := false } else pure ())
      fun _ state pool => ∃ piece, Writes clause piece start state pool := by
  constructor
  rintro state pool value state' pool' yields ⟨piece, effect, emits, reachable, falls, same⟩
  rw [← same] at yields falls
  split at yields
  · rename_i ends
    obtain ⟨rfl, rfl⟩ := yields_modify.1 yields
    exact ⟨piece, effect, emits.reachable false, falls, by simp [ends]⟩
  · rename_i goesOn
    obtain ⟨_, rfl, rfl⟩ := yields_pure.1 yields
    exact ⟨piece, effect, emits, falls, by simp [goesOn, reachable]⟩

theorem leads_operation {mnemonic : String} (known : Opcode.ofMnemonic? mnemonic = some opcode) :
    Leads (fun state _ => start = state) (operation opcode) fun _ state pool =>
      ∃ piece, Writes (Clause.ofOpcode mnemonic opcode start.operands) piece start state pool := by
  have ready {step : AssemblyM Unit} {after : Unit → Assembly → Pool → Prop}
      (led : Leads (fun state _ => Ready start state) step after) :
      Leads (fun state _ => start = state) step after :=
    led.imp (fun state _ same => ⟨state.operands, by rw [same]⟩) fun _ _ _ => id
  have ends (ordinary : opcode.namesPlace = false) : Leads (Laid opcode start)
      (if opcode.endsFlow then modify fun state => { state with reachable := false } else pure ())
      fun _ state pool => ∃ piece,
        Writes (Clause.ofOpcode mnemonic opcode start.operands) piece start state pool :=
    leads_ending.imp (fun _ _ laid => laid.issues_mnemonic known ordinary _) fun _ _ _ => id
  unfold operation
  refine Leads.ite (fun same => ready ?_) (fun other₁ => ?_)
  · subst same
    have simple : Simple Opcode.bipush 2 := by decide_cbv
    refine Leads.bind (.keep (preserves_nextByte Ready.operands _)) fun value => ?_
    exact Leads.bind (leads_emit_simple [value] simple (by decide) fun buffer =>
      (Buffer.grows_addOpcode _ _).addByte _) fun _ => ends (by decide)
  refine Leads.ite (fun same => ready ?_) (fun other₂ => ?_)
  · subst same
    have simple : Simple Opcode.sipush 3 := by decide_cbv
    refine Leads.bind (.keep (preserves_nextInteger Ready.operands _ _ _)) fun value => ?_
    exact Leads.bind (leads_emit_simple (Binary.Writer.u16 (Int16.ofInt value).toUInt16) simple
      (by decide) fun buffer => (Buffer.grows_addOpcode _ _).addBytes _) fun _ => ends (by decide)
  refine Leads.ite (fun either => ready ?_) (fun other₃ => ?_)
  · have ordinary : opcode.namesPlace = false := by rcases either with rfl | rfl <;> decide
    refine Leads.bind (.keep (preserves_nextConstant Ready.operands)) fun index => ?_
    exact Leads.bind (leads_emit_laid fun _ _ => lays_ldc either index) fun _ => ends ordinary
  refine Leads.ite (fun same => ready ?_) (fun other₄ => ?_)
  · subst same
    have simple : Simple Opcode.ldc2W 3 := by decide_cbv
    refine Leads.bind (.keep (preserves_nextWideConstant Ready.operands)) fun index => ?_
    exact Leads.bind (leads_emit_simple (Binary.Writer.u16 index) simple (by decide) fun buffer =>
      Buffer.grows_addIndexed ..) fun _ => ends (by decide)
  refine Leads.ite (fun between => ready ?_) (fun other₅ => ?_)
  · refine Leads.bind (.keep (preserves_nextSlot Ready.operands)) fun slot => ?_
    exact Leads.bind (leads_load between slot) fun _ => ends ((row opcode).load between).2
  refine Leads.ite (fun between => ready ?_) (fun other₆ => ?_)
  · refine Leads.bind (.keep (preserves_nextSlot Ready.operands)) fun slot => ?_
    exact Leads.bind (leads_store between slot) fun _ => ends ((row opcode).store between).2
  refine Leads.ite (fun same => ready ?_) (fun other₇ => ?_)
  · subst same
    refine Leads.bind (.keep (preserves_nextSlot Ready.operands)) fun slot => ?_
    exact Leads.bind (leads_emitChecked_laid fun _ _ _ => lays_ret) fun _ => ends (by decide)
  refine Leads.ite (fun same => ready ?_) (fun other₈ => ?_)
  · subst same
    exact Leads.bind leads_increment fun _ => ends (by decide)
  refine Leads.ite (fun branches => ?_) (fun other₉ => ?_)
  · rw [Clause.ofOpcode, if_pos branches]
    exact Leads.bind (leads_branch (Bool.or_eq_true_iff.1 branches)) fun _ => leads_ending
  refine Leads.ite (fun same => ?_) (fun other₁₀ => ?_)
  · subst same
    rw [Clause.ofOpcode, if_neg other₉, if_pos rfl]
    exact Leads.bind leads_tableSwitch fun _ => leads_ending
  refine Leads.ite (fun same => ?_) (fun other₁₁ => ?_)
  · subst same
    rw [Clause.ofOpcode, if_neg other₉, if_neg other₁₀, if_pos rfl]
    exact Leads.bind leads_lookupSwitch fun _ => leads_ending
  refine Leads.ite (fun between => ready ?_) (fun other₁₂ => ?_)
  · exact Leads.bind (leads_fieldAccess between) fun _ => ends ((row opcode).field between).1.2.1
  refine Leads.ite (fun between => ready ?_) (fun other₁₃ => ?_)
  · exact Leads.bind (leads_call between) fun _ => ends ((row opcode).call between).1.2.1
  refine Leads.ite (fun _ => ?_) (fun other₁₄ => ?_)
  · exact Leads.bind .failSyntax fun _ => leads_ending
  refine Leads.ite (fun ofClass => ready ?_) (fun other₁₅ => ?_)
  · obtain ⟨simple, steady⟩ := (row opcode).ofClass ofClass
    refine Leads.bind (.keep (preserves_nextWord Ready.operands _)) fun word => ?_
    refine Leads.bind (.keep (preserves_classConstant word)) fun index => ?_
    exact Leads.bind (leads_emit_simple (Binary.Writer.u16 index) simple steady fun buffer =>
      Buffer.grows_addIndexed ..) fun _ => ends simple.2.1
  refine Leads.ite (fun same => ready ?_) (fun other₁₆ => ?_)
  · subst same
    exact Leads.bind leads_newArray fun _ => ends (by decide)
  refine Leads.ite (fun same => ready ?_) (fun other₁₇ => ?_)
  · subst same
    exact Leads.bind leads_newArrays fun _ => ends (by decide)
  refine Leads.ite (fun _ => ?_) (fun other₁₈ => ready ?_)
  · exact Leads.bind .failSyntax fun _ => leads_ending
  have bare : ¬ TakesOperands opcode := by
    simp only [TakesOperands, other₁, other₂, other₃, other₄, other₅, other₆, other₇, other₈, other₉,
      other₁₀, other₁₁, other₁₂, other₁₃, other₁₄, other₁₅, other₁₆, other₁₇, other₁₈, or_self,
      Bool.false_eq_true, not_false_eq_true]
  obtain ⟨form, ordinary, steady⟩ := (row opcode).bare (isSome_form?_of_mnemonic known) bare
  exact Leads.bind (leads_emit_laid fun _ _ => ⟨_, _, lays_bare form ordinary steady⟩) fun _ =>
    ends ordinary

theorem Issues.writes {clause : Clause} (issues : Issues clause opcode start state pool)
    (steady : opcode.endsFlow = false) : ∃ piece, Writes clause piece start state pool := by
  obtain ⟨piece, effect, emits, reachable, falls, same⟩ := issues
  exact ⟨piece, effect, emits, by rw [falls, same], by simp [same, steady, reachable]⟩

theorem Laid.writes {mnemonic : String} (laid : Laid opcode start state pool)
    (steady : opcode.endsFlow = false ∧ stem? [opcode] = some opcode ∧ isCompact opcode = false)
    (other : Opcode.ofMnemonic? mnemonic = none)
    (spells : ∀ bytes, stem? bytes = some opcode → Spells mnemonic bytes) :
    ∃ piece, Writes (.plain mnemonic) piece start state pool := by
  refine (laid.issues (fun bytes _ stem => .plain (spells bytes (stem.trans steady.2.1)))
    (fun _ => steady.2.2) ?_).writes steady.1
  simp [Clause.endsFlow, other, steady.1]

theorem leads_moveVariable {mnemonic : String} {move : Buffer → Nat → ValueKind → Except Error Buffer}
    {opcode short : ValueKind → Opcode} (moves : ∀ kind, Moves (opcode kind) (short kind) kind)
    (spelled : ∀ buffer slot kind, move buffer slot kind =
      Buffer.addAccess buffer (opcode kind) (short kind) kind slot)
    (other : Opcode.ofMnemonic? mnemonic = none)
    (spells : ∀ kind bytes, stem? bytes = some (opcode kind) → Spells mnemonic bytes) :
    Leads (fun state _ => Ready start state) (moveVariable move)
      fun _ state pool => ∃ piece, Writes (.plain mnemonic) piece start state pool := by
  unfold moveVariable
  refine Leads.bind (.keep (preserves_nextWord Ready.operands _)) fun name => ?_
  refine Leads.bind (.keep Preserves.get) fun state => ?_
  split
  · exact Leads.fail
  · rename_i var _
    have moves := moves var.type.kind
    refine (leads_emitChecked_laid fun before after pool added => ?_).imp (fun _ _ => id)
      fun _ state pool laid => laid.writes ⟨moves.steady.2.2.1, moves.steady.2.2.2⟩ other (spells _)
    rw [spelled] at added
    exact moves.lays added

set_option maxRecDepth 4000 in
theorem pushers_steady : ∀ opcode ∈ pushers,
    opcode.endsFlow = false ∧ stem? [opcode] = some opcode ∧ isCompact opcode = false := by
  decide

theorem lays_addInteger {value : Int32} {buffer after : Buffer} {pool pool' : Pool}
    (added : outcome (buffer.addInteger value) pool = (.ok after, pool')) :
    ∃ opcode ∈ pushers, ∃ bytes growth, Lays opcode bytes growth buffer after pool' := by
  have small : ∀ n : Fin 7, let opcode := UInt8.ofNat (Opcode.iconst0.toNat + (n - 1 : Int)).toNat
      opcode ∈ pushers ∧ Opcode.form? opcode = some (.fixed 1) ∧ Opcode.namesPlace opcode = false ∧
        opcode ≠ Opcode.wide ∧ Opcode.hasVariableGrowth opcode = false := by decide +kernel
  have simple : Simple Opcode.bipush 2 ∧ Simple Opcode.sipush 3 := by decide_cbv
  simp only [Buffer.addInteger] at added
  split at added
  · rename_i inRange
    cases added
    obtain ⟨member, form, ordinary, steady⟩ := small ⟨(value.toInt + 1).toNat, by omega⟩
    have same : ((value.toInt + 1).toNat : Int) - 1 = value.toInt := by omega
    rw [same] at member form ordinary steady
    exact ⟨_, member, _, _, lays_bare form ordinary steady⟩
  · split at added
    · cases added
      have simple : Simple Opcode.bipush ([value.toInt8.toUInt8].length + 1) := simple.1
      exact ⟨Opcode.bipush, by decide, _, _,
        simple.lays_steady (by decide) ((Buffer.grows_addOpcode _ _).addByte _)⟩
    · split at added
      · cases added
        have simple : Simple Opcode.sipush ((Binary.Writer.u16 value.toInt16.toUInt16).length + 1) :=
          simple.2
        exact ⟨Opcode.sipush, by decide, _, _,
          simple.lays_steady (by decide) ((Buffer.grows_addOpcode _ _).addBytes _)⟩
      · obtain ⟨index, _, _, added⟩ := outcome_bind_eq_ok.1 added
        obtain ⟨rfl, _⟩ := outcome_pure_eq_ok.1 added
        exact ⟨Opcode.ldc, by decide, lays_ldc (.inl rfl) index⟩

theorem leads_pushInteger :
    Leads (fun state _ => Ready start state) pushInteger
      fun _ state pool => ∃ piece, Writes (.plain "iconst") piece start state pool := by
  unfold pushInteger
  refine Leads.bind (.keep (preserves_nextInteger Ready.operands _ _ _)) fun value => ?_
  constructor
  intro state pool value state' pool' yields ready
  obtain ⟨_, _, _, got, yields⟩ := yields_bind.1 yields
  obtain ⟨rfl, rfl, rfl⟩ := yields_get.1 got
  obtain ⟨buffer, _, _, added, yields⟩ := yields_bind.1 yields
  obtain ⟨spelled, rfl⟩ := yields_inPool.1 added
  obtain ⟨rfl, rfl⟩ := yields_modify.1 yields
  obtain ⟨opcode, member, _, _, lays⟩ := lays_addInteger spelled
  exact (ready.laid lays).writes (pushers_steady opcode member) ofMnemonic?_others.2.2
    fun _ stem => ⟨opcode, member, stem⟩

inductive Acts (start : Assembly) (pool : Pool) : Clause → List Piece → Assembly → Prop
  | silent {scope : Scope} {operands : List Token} {maxLocals : Nat}
      (more : start.buffer.maxLocals ≤ maxLocals) :
      Acts start pool .silent [] { start with
        scope, operands, buffer := { start.buffer with maxLocals } }
  | handler {from' to' using' : String} {line : Nat} {operands : List Token} {catchType : Pool.Index} :
      Acts start pool (.handler from' to' using') []
        { start.setLabel using' ((start.label using').met 1) with
          operands, handlers := start.handlers.push ⟨line, from', to', using', catchType⟩ }
  | writes {clause : Clause} {piece : Piece} {state : Assembly}
      (writes : Writes clause piece start state pool) : Acts start pool clause [piece] state

theorem leads_declareLocal :
    Leads (fun state _ => start = state) declareLocal
      fun _ state pool => Acts start pool .silent [] state := by
  constructor
  rintro state pool value state' pool' yields rfl
  unfold declareLocal at yields
  obtain ⟨name, _, _, read, yields⟩ := yields_bind.1 yields
  obtain ⟨_, _, rfl⟩ := yields_nextWord read
  split at yields
  · exact absurd yields not_yields_fail
  · obtain ⟨word, between, _, read, yields⟩ := yields_bind.1 yields
    obtain ⟨_, _, rfl⟩ := yields_nextWord read
    obtain ⟨type, _, _, typed, yields⟩ := yields_bind.1 yields
    have same (state : Assembly) : Preserves (Eq state) (typeOf word) := preserves_typeOf word
    obtain rfl := (same _).kept typed rfl
    obtain ⟨rfl, _⟩ := yields_declared yields
    exact .silent (Nat.le_add_right _ _)

theorem yields_handler {state' : Assembly} {pool pool' : Pool} {value : Unit} {caught : Token}
    {catchType : Pool.Index} (split : start.operands = caught :: state.operands)
    (ready : Ready start state)
    (yields : Yields (handlerRange catchType) state pool value state' pool') :
    Acts start pool' (Clause.ofHandler start.operands) [] state' := by
  obtain ⟨_, _, _, read, yields⟩ := yields_bind.1 yields
  obtain ⟨_, _, split₁, rfl⟩ := yields_keyword read
  obtain ⟨from', _, _, read, yields⟩ := yields_bind.1 yields
  obtain ⟨_, split₂, rfl⟩ := yields_nextWord read
  obtain ⟨_, _, _, read, yields⟩ := yields_bind.1 yields
  obtain ⟨_, _, split₃, rfl⟩ := yields_keyword read
  obtain ⟨to', _, _, read, yields⟩ := yields_bind.1 yields
  obtain ⟨_, split₄, rfl⟩ := yields_nextWord read
  obtain ⟨_, _, _, read, yields⟩ := yields_bind.1 yields
  obtain ⟨_, _, split₅, rfl⟩ := yields_keyword read
  obtain ⟨using', _, _, read, yields⟩ := yields_bind.1 yields
  obtain ⟨_, split₆, rfl⟩ := yields_nextWord read
  obtain ⟨_, _, _, met, yields⟩ := yields_bind.1 yields
  obtain ⟨rfl, rfl⟩ := yields_expectDepth met
  obtain ⟨rfl, rfl⟩ := yields_modify.1 yields
  dsimp only at split₂ split₃ split₄ split₅ split₆
  rw [split, split₁, split₂, split₃, split₄, split₅, split₆, Clause.ofHandler]
  obtain ⟨_, rfl⟩ := ready
  exact .handler

theorem leads_declareHandler :
    Leads (fun state _ => start = state) declareHandler
      fun _ state pool => Acts start pool (Clause.ofHandler start.operands) [] state := by
  constructor
  rintro state pool value state' pool' yields rfl
  rw [declareHandler_eq] at yields
  obtain ⟨caught, _, _, read, yields⟩ := yields_bind.1 yields
  obtain ⟨rest, split, rfl⟩ := yields_nextWord read
  dsimp only at yields
  split at yields
  · obtain ⟨_, _, _, none, yields⟩ := yields_bind.1 yields
    obtain ⟨_, rfl, rfl⟩ := yields_pure.1 none
    exact yields_handler split ⟨rest, rfl⟩ yields
  · obtain ⟨_, _, _, found, yields⟩ := yields_bind.1 yields
    have same (state : Assembly) : Preserves (Eq state) (classConstant caught) :=
      preserves_classConstant caught
    obtain rfl := (same _).kept found rfl
    exact yields_handler split ⟨rest, rfl⟩ yields

theorem leads_instruction (mnemonic : String) :
    Leads (fun state _ => start = state) (instruction mnemonic) fun _ state pool =>
      ∃ pieces, Acts start pool (.ofTokens (.word mnemonic :: start.operands)) pieces state := by
  have writing {step : AssemblyM Unit} {clause : Clause}
      (led : Leads (fun state _ => Ready start state) step
        fun _ state pool => ∃ piece, Writes clause piece start state pool) :
      Leads (fun state _ => start = state) step
        fun _ state pool => ∃ pieces, Acts start pool clause pieces state :=
    led.imp (fun state _ same => ⟨state.operands, by rw [same]⟩) fun _ _ _ ⟨_, writes⟩ =>
      ⟨_, .writes writes⟩
  unfold instruction
  split
  · exact writing (leads_moveVariable moves_load (fun _ _ _ => rfl) ofMnemonic?_others.1
      fun kind bytes stem => ⟨kind, by cases kind <;> decide, stem⟩)
  · exact writing (leads_moveVariable moves_store (fun _ _ _ => rfl) ofMnemonic?_others.2.1
      fun kind bytes stem => ⟨kind, by cases kind <;> decide, stem⟩)
  · exact writing leads_pushInteger
  · exact leads_declareLocal.imp (fun _ _ => id) fun _ _ _ acts => ⟨[], acts⟩
  · exact leads_declareHandler.imp (fun _ _ => id) fun _ _ _ acts => ⟨[], acts⟩
  · rename_i notLoad notStore notIconst notLocal notCatch
    split
    · exact Leads.fail
    · rename_i opcode known
      have clause : Clause.ofTokens (.word mnemonic :: start.operands) =
          Clause.ofOpcode mnemonic opcode start.operands := by
        simp only [Clause.ofTokens, known]
      rw [clause]
      refine Leads.bind (leads_operation known) fun _ => ?_
      refine Leads.bind (Leads.get) fun state => ?_
      refine Leads.ite (fun _ => Leads.fail) fun _ => ?_
      refine (Leads.pure _).imp (fun _ _ => id) fun _ _ _ found => ?_
      obtain ⟨_, piece, writes⟩ := found
      exact ⟨_, .writes writes⟩

end ClassSplice.Assembler
