import ClassSplice.Proofs.Assembler.Piece

namespace ClassSplice.Assembler

open Code (Buffer Holds Instruction Opcode Reads)
open Descriptor (FieldType MethodType ValueKind)
open Machine (accessed? slotsOf)

variable {start state : Assembly} {pool : Pool} {bytes added : List UInt8} {fixups : List Fixup}
  {growth : Int} {opcode : Opcode}

theorem wellFormed_of_reads
    (reads : ∀ {code : Array UInt8} {pos : Nat}, Holds code pos bytes →
      Reads code pos ⟨bytes.length, .plain bytes⟩) : (Instruction.plain bytes).WellFormed :=
  ⟨bytes.toArray, 0, reads ⟨[], [], by simp, rfl⟩⟩

structure Forms (opcode : Opcode) (bytes : List UInt8) : Prop where
  wellFormed : (Instruction.plain bytes).WellFormed
  stem : stem? bytes = stem? [opcode]
  runs : Code.runsOn bytes = !opcode.endsFlow

def Simple (opcode : Opcode) (length : Nat) : Prop :=
  opcode.form? = some (.fixed length) ∧ opcode.namesPlace = false ∧ isCompact opcode = false ∧
    Code.isWidenable opcode = false ∧ opcode ≠ Opcode.iinc ∧ opcode ≠ Opcode.wide

instance (opcode : Opcode) (length : Nat) : Decidable (Simple opcode length) :=
  inferInstanceAs (Decidable (_ ∧ _))

def TakesOperands (opcode : Opcode) : Prop :=
  opcode = Opcode.bipush ∨ opcode = Opcode.sipush ∨ (opcode = Opcode.ldc ∨ opcode = Opcode.ldcW) ∨
    opcode = Opcode.ldc2W ∨ (Opcode.iload ≤ opcode ∧ opcode ≤ Opcode.aload) ∨
    (Opcode.istore ≤ opcode ∧ opcode ≤ Opcode.astore) ∨ opcode = Opcode.ret ∨
    opcode = Opcode.iinc ∨ (opcode.isShortBranch || opcode.isWideBranch) = true ∨
    opcode = Opcode.tableswitch ∨ opcode = Opcode.lookupswitch ∨
    (Opcode.getstatic ≤ opcode ∧ opcode ≤ Opcode.putfield) ∨
    (Opcode.invokevirtual ≤ opcode ∧ opcode ≤ Opcode.invokeinterface) ∨
    opcode = Opcode.invokedynamic ∨ (opcode = Opcode.new ∨ opcode = Opcode.anewarray ∨
      opcode = Opcode.checkcast ∨ opcode = Opcode.instanceof) ∨
    opcode = Opcode.newarray ∨ opcode = Opcode.multianewarray ∨ opcode = Opcode.wide

instance : DecidablePred TakesOperands :=
  fun _ => inferInstanceAs (Decidable (_ ∨ _))

@[mk_iff]
structure Row (opcode : Opcode) : Prop where
  bare : opcode.form?.isSome = true → ¬ TakesOperands opcode → opcode.form? = some (.fixed 1) ∧
    opcode.namesPlace = false ∧ opcode ≠ Opcode.wide ∧ opcode.hasVariableGrowth = false
  load : Opcode.iload ≤ opcode ∧ opcode ≤ Opcode.aload →
    (kindFrom Opcode.iload opcode).loadOpcode = opcode ∧ opcode.namesPlace = false
  store : Opcode.istore ≤ opcode ∧ opcode ≤ Opcode.astore →
    (kindFrom Opcode.istore opcode).storeOpcode = opcode ∧ opcode.namesPlace = false
  slotted : Code.isWidenable opcode = true → opcode.endsFlow = (opcode == Opcode.ret)
  field : Opcode.getstatic ≤ opcode ∧ opcode ≤ Opcode.putfield → Simple opcode 3 ∧
    (opcode = Opcode.getstatic ∨ opcode = Opcode.putstatic ∨ opcode = Opcode.getfield ∨
      opcode = Opcode.putfield) ∧ opcode.hasVariableGrowth = true
  call : Opcode.invokevirtual ≤ opcode ∧ opcode ≤ Opcode.invokeinterface →
    Simple opcode (if opcode = Opcode.invokeinterface then 5 else 3) ∧ (¬ opcode ≤ Opcode.putfield ∧
      opcode ≠ Opcode.multianewarray ∧ opcode ≠ Opcode.invokedynamic) ∧
      opcode.hasVariableGrowth = true
  ofClass : (opcode = Opcode.new ∨ opcode = Opcode.anewarray ∨ opcode = Opcode.checkcast ∨
    opcode = Opcode.instanceof) → Simple opcode 3 ∧ opcode.hasVariableGrowth = false
  varies : opcode.hasVariableGrowth = true → opcode.growth = 0

set_option synthInstance.maxSize 400 in
instance : DecidablePred Row :=
  fun opcode => decidable_of_iff' _ (row_iff opcode)

theorem row (opcode : Opcode) : Row opcode :=
  of_decide_eq_true (Opcode.forall_of_fin (fun opcode => decide (Row opcode)) (by decide +kernel) opcode)

theorem wellFormed_fixed {operands : List UInt8}
    (form : opcode.form? = some (.fixed (operands.length + 1))) (ordinary : opcode.namesPlace = false) :
    (Instruction.plain (opcode :: operands)).WellFormed :=
  wellFormed_of_reads (Edit.reads_fixed form ordinary)

theorem wellFormed_wide {operands : List UInt8}
    (length : operands.length = if opcode = Opcode.iinc then 4 else 2)
    (widenable : opcode = Opcode.iinc ∨ Code.isWidenable opcode = true) :
    (Instruction.plain (Opcode.wide :: opcode :: operands)).WellFormed := by
  apply wellFormed_of_reads
  intro code pos held
  obtain ⟨first, rest⟩ := Code.holds_cons.1 held
  have second := Code.byteAt_eq_ok.1 (Code.byteAt_of_holds (Code.holds_cons.1 rest).1)
  have form : Opcode.form? Opcode.wide = some .wide := by cbv
  refine Code.reads_of_spelled (.plain (Code.byteAt_of_holds first) (by decide) form ?_ held)
  simp only [Code.claimedLength, second, List.length_cons, length]
  split
  · rfl
  · rename_i different
    rw [if_pos (widenable.resolve_left different)]

theorem Simple.accessed? {length : Nat} (simple : Simple opcode length) (operands : List UInt8) :
    accessed? (opcode :: operands) = none := by
  obtain ⟨_, _, compact, narrow, other, short⟩ := simple
  have compact : ¬ (Opcode.iload0 ≤ opcode ∧ opcode < Opcode.iload0 + 20) ∧
      ¬ (Opcode.istore0 ≤ opcode ∧ opcode < Opcode.istore0 + 20) := by
    simpa [isCompact] using compact
  unfold Machine.accessed?
  split
  · rename_i same
    cases same
    rw [if_neg compact.1, if_neg compact.2]
  all_goals simp_all

theorem Simple.stem? {length : Nat} (simple : Simple opcode length) (operands : List UInt8) :
    stem? (opcode :: operands) = stem? [opcode] := by
  simp only [Assembler.stem?, simple.accessed?, List.head?_cons]

theorem Simple.forms {operands : List UInt8} (simple : Simple opcode (operands.length + 1)) :
    Forms opcode (opcode :: operands) where
  wellFormed := wellFormed_fixed simple.1 simple.2.1
  stem := simple.stem? operands
  runs := by simp [Code.runsOn, simple.2.2.2.2.2]

theorem forms_bare (form : opcode.form? = some (.fixed 1)) (ordinary : opcode.namesPlace = false) :
    Forms opcode [opcode] where
  wellFormed := wellFormed_fixed form ordinary
  stem := rfl
  runs := by simp [Code.runsOn]

def ldcBytes (index : Pool.Index) : List UInt8 :=
  if index ≤ 255 then [Opcode.ldc, index.toUInt8] else Opcode.ldcW :: Binary.Writer.u16 index

theorem simple_ldc : Simple Opcode.ldc 2 ∧ Simple Opcode.ldcW 3 := by
  decide_cbv

theorem forms_ldc (either : opcode = Opcode.ldc ∨ opcode = Opcode.ldcW) (index : Pool.Index) :
    Forms opcode (ldcBytes index) := by
  have same : Assembler.stem? [Opcode.ldc] = Assembler.stem? [opcode] ∧
      Assembler.stem? [Opcode.ldcW] = Assembler.stem? [opcode] ∧
      Opcode.endsFlow Opcode.ldc = opcode.endsFlow ∧
      Opcode.endsFlow Opcode.ldcW = opcode.endsFlow := by
    rcases either with rfl | rfl <;> decide
  unfold ldcBytes
  split
  · have forms : Forms Opcode.ldc [Opcode.ldc, index.toUInt8] := simple_ldc.1.forms
    exact ⟨forms.wellFormed, forms.stem.trans same.1, same.2.2.1 ▸ forms.runs⟩
  · have forms : Forms Opcode.ldcW (Opcode.ldcW :: Binary.Writer.u16 index) := simple_ldc.2.forms
    exact ⟨forms.wellFormed, forms.stem.trans same.2.1, same.2.2.2 ▸ forms.runs⟩

structure Moves (opcode short : Opcode) (kind : ValueKind) : Prop where
  accesses : Edit.Accesses opcode short kind
  near : ∀ slot : Fin 4, let compact := short + kind.family * 4 + UInt8.ofNat slot
    accessed? [compact] = some (opcode, slot.val) ∧ compact.hasVariableGrowth = false ∧
      compact ≠ Opcode.wide ∧ compact.endsFlow = false
  steady : opcode.hasVariableGrowth = false ∧ opcode ≠ Opcode.wide ∧ opcode.endsFlow = false ∧
    stem? [opcode] = some opcode ∧ isCompact opcode = false
  width : slotsOf opcode = kind.slots

theorem moves_load (kind : ValueKind) : Moves kind.loadOpcode Opcode.iload0 kind where
  accesses := Edit.accesses_load kind
  near := by cases kind <;> decide
  steady := by cases kind <;> decide
  width := by cases kind <;> decide

theorem moves_store (kind : ValueKind) : Moves kind.storeOpcode Opcode.istore0 kind where
  accesses := Edit.accesses_store kind
  near := by cases kind <;> decide
  steady := by cases kind <;> decide
  width := by cases kind <;> decide

theorem forms_slotted {slot : Nat} (form : opcode.form? = some (.fixed 2))
    (ordinary : opcode.namesPlace = false) (widenable : Code.isWidenable opcode = true)
    (stem : stem? [opcode] = some opcode) (fits : slot ≤ 65535) :
    Forms opcode (Edit.slottedBytes opcode slot) where
  wellFormed := wellFormed_of_reads (Edit.reads_slotted form ordinary widenable slot)
  stem := by rw [stem, stem?, Machine.accessed?_slotted widenable fits]
  runs := by
    have ends := (row opcode).slotted widenable
    unfold Edit.slottedBytes
    split
    · have narrow : opcode ≠ Opcode.wide := by
        rintro rfl
        exact absurd widenable (by decide)
      simp [Code.runsOn, narrow]
    · have wide : Opcode.endsFlow Opcode.wide = false := by decide
      simp [Code.runsOn, ends, wide]

theorem Moves.forms {short : Opcode} {kind : ValueKind} (moves : Moves opcode short kind) {slot : Nat}
    (fits : slot ≤ 65535) : Forms opcode (Buffer.accessBytes opcode short kind slot) where
  wellFormed := wellFormed_of_reads (moves.accesses.reads slot)
  stem := by
    rw [stem?, Machine.accessed?_access moves.accesses (fun slot => (moves.near slot).1) fits,
      moves.steady.2.2.2.1]
  runs := by
    unfold Buffer.accessBytes
    split
    · have near := moves.near ⟨slot, ‹_›⟩
      simp [Code.runsOn, moves.steady.2.2.1, near.2.2.2]
    · exact (forms_slotted moves.accesses.form moves.accesses.ordinary moves.accesses.widenable
        moves.steady.2.2.2.1 fits).runs

section Slots

variable {before after : Buffer} {slot : Nat}

theorem grows_addSlotted (added : before.addSlotted opcode slot = .ok after) :
    Buffer.Grows (Edit.slottedBytes opcode slot) opcode.growth before after ∧ slot ≤ 65535 := by
  unfold Buffer.addSlotted at added
  unfold Edit.slottedBytes
  split at added
  · rename_i short
    cases added
    rw [if_pos short]
    exact ⟨(Buffer.grows_addOpcode _ _).addByte _, by omega⟩
  · rename_i far
    split at added
    · rename_i fits
      cases added
      rw [if_neg far]
      exact ⟨(Buffer.grows_addWide _ _).addBytes _, fits⟩
    · cases added

theorem plainEffect?_slotted (narrow : opcode ≠ Opcode.wide)
    (steady : opcode.hasVariableGrowth = false) (slot : Nat) :
    Code.plainEffect? pool (Edit.slottedBytes opcode slot) = some opcode.growth := by
  unfold Edit.slottedBytes
  split
  · exact Code.plainEffect?_steady narrow steady
  · simp [Code.plainEffect?]

theorem Moves.grows {short : Opcode} {kind : ValueKind} (moves : Moves opcode short kind)
    (added : before.addAccess opcode short kind slot = .ok after) :
    ∃ growth, Buffer.Grows (Buffer.accessBytes opcode short kind slot) growth before after ∧
      (∀ pool, Code.plainEffect? pool (Buffer.accessBytes opcode short kind slot) = some growth) ∧
      slot ≤ 65535 ∧ slot + kind.slots ≤ after.maxLocals := by
  simp only [Buffer.addAccess] at added
  unfold Buffer.accessBytes
  split at added
  · rename_i near
    cases added
    obtain ⟨_, steady, narrow, _⟩ := moves.near ⟨slot, near⟩
    rw [if_pos near]
    exact ⟨_, (Buffer.grows_addOpcode _ _).reserveLocals _,
      fun _ => Code.plainEffect?_steady narrow steady, by omega, Buffer.le_maxLocals_reserveLocals ..⟩
  · rename_i far
    obtain ⟨middle, slotted, added⟩ := bind_eq_ok.1 added
    cases pure_eq_ok.1 added
    obtain ⟨grows, fits⟩ := grows_addSlotted slotted
    rw [if_neg far]
    exact ⟨_, grows.reserveLocals _, fun _ => plainEffect?_slotted moves.steady.2.1 moves.steady.1 slot,
      fits, Buffer.le_maxLocals_reserveLocals ..⟩

end Slots

structure Lays (opcode : Opcode) (bytes : List UInt8) (growth : Int) (before after : Buffer)
    (pool : Pool) : Prop where
  grows : Buffer.Grows bytes growth before after
  forms : Forms opcode bytes
  measured : ∀ later, Pool.Extended pool later → later.Sound →
    Code.plainEffect? later bytes = some growth
  fits : isCompact opcode = false → ∀ accessed slot, accessed? bytes = some (accessed, slot) →
    slot + slotsOf accessed ≤ after.maxLocals

def Laid (opcode : Opcode) (start state : Assembly) (pool : Pool) : Prop :=
  ∃ bytes growth operands buffer, Lays opcode bytes growth start.buffer buffer pool ∧
    state = { start with operands, buffer }

theorem Laid.issues {clause : Clause} (laid : Laid opcode start state pool)
    (said : ∀ bytes place, stem? bytes = stem? [opcode] → clause.Says place (.plain bytes))
    (compact : clause.isCompact = false → isCompact opcode = false)
    (ends : clause.endsFlow = opcode.endsFlow) :
    Issues clause opcode start state pool := by
  obtain ⟨bytes, growth, operands, buffer, lays, rfl⟩ := laid
  have grows : Buffer.Grows bytes (growth - 0) start.buffer buffer := by
    rw [sub_zero]
    exact lays.grows
  refine ⟨⟨start.buffer.pc, .plain bytes, []⟩, growth, ⟨rfl, grows, fun low => ?_, ?_,
    ⟨nofun, rfl, nofun⟩, fun _ => lays.forms.wellFormed, lays.measured,
    fun place => said bytes place lays.forms.stem, ?_⟩, rfl, lays.forms.runs, ends⟩
  · have high := lays.grows.high low
    rwa [lays.grows.depth] at high
  · exact ⟨fun _ => by simp [Assembly.label], by simp, rfl⟩
  · rintro written _ accessed slot ⟨⟩
    exact lays.fits (compact written) accessed slot

theorem ofMnemonic?_others : Opcode.ofMnemonic? "load" = none ∧ Opcode.ofMnemonic? "store" = none ∧
    Opcode.ofMnemonic? "iconst" = none := by
  decide +kernel

theorem spells_of_stem {mnemonic : String} (known : Opcode.ofMnemonic? mnemonic = some opcode)
    (stem : stem? bytes = stem? [opcode]) : Spells mnemonic bytes := by
  unfold Spells
  split
  · exact absurd known (by simp [ofMnemonic?_others])
  · exact absurd known (by simp [ofMnemonic?_others])
  · exact absurd known (by simp [ofMnemonic?_others])
  · exact ⟨opcode, known, stem⟩

theorem Clause.ofOpcode_ordinary {mnemonic : String} (ordinary : opcode.namesPlace = false)
    (operands : List Token) : Clause.ofOpcode mnemonic opcode operands = .plain mnemonic := by
  simp only [Opcode.namesPlace, Opcode.isSwitch, Bool.or_eq_false_iff, beq_eq_false_iff_ne] at ordinary
  simp [ofOpcode, ordinary]

theorem Laid.issues_mnemonic {mnemonic : String} (laid : Laid opcode start state pool)
    (known : Opcode.ofMnemonic? mnemonic = some opcode) (ordinary : opcode.namesPlace = false)
    (operands : List Token) :
    Issues (Clause.ofOpcode mnemonic opcode operands) opcode start state pool := by
  rw [Clause.ofOpcode_ordinary ordinary]
  refine laid.issues (fun bytes place stem => .plain (spells_of_stem known stem)) (fun compact => ?_) ?_
  · simpa [Clause.isCompact, known] using compact
  · simp [Clause.endsFlow, known]

section Lays

variable {before after : Buffer} {operands : List UInt8} {slot : Nat}

theorem Simple.lays (simple : Simple opcode (operands.length + 1))
    (grows : Buffer.Grows (opcode :: operands) growth before after)
    (measured : ∀ later, Pool.Extended pool later → later.Sound →
      Code.plainEffect? later (opcode :: operands) = some growth) :
    Lays opcode (opcode :: operands) growth before after pool where
  grows := grows
  forms := simple.forms
  measured := measured
  fits _ accessed slot found := by
    rw [simple.accessed?] at found
    cases found

theorem Simple.lays_steady (simple : Simple opcode (operands.length + 1))
    (steady : opcode.hasVariableGrowth = false)
    (grows : Buffer.Grows (opcode :: operands) opcode.growth before after) :
    Lays opcode (opcode :: operands) opcode.growth before after pool :=
  simple.lays grows fun _ _ _ => Code.plainEffect?_steady simple.2.2.2.2.2 steady

theorem lays_bare (form : opcode.form? = some (.fixed 1)) (ordinary : opcode.namesPlace = false)
    (steady : opcode ≠ Opcode.wide ∧ opcode.hasVariableGrowth = false) :
    Lays opcode [opcode] opcode.growth before (before.addOpcode opcode) pool where
  grows := Buffer.grows_addOpcode _ _
  forms := forms_bare form ordinary
  measured _ _ _ := Code.plainEffect?_steady steady.1 steady.2
  fits compact accessed slot found := by
    have compact : ¬ (Opcode.iload0 ≤ opcode ∧ opcode < Opcode.iload0 + 20) ∧
        ¬ (Opcode.istore0 ≤ opcode ∧ opcode < Opcode.istore0 + 20) := by
      simpa [isCompact] using compact
    simp only [accessed?, if_neg compact.1, if_neg compact.2] at found
    cases found

theorem lays_ldc (either : opcode = Opcode.ldc ∨ opcode = Opcode.ldcW) (index : Pool.Index) :
    ∃ bytes growth, Lays opcode bytes growth before (before.addLdc index) pool := by
  have forms := forms_ldc either index
  unfold Buffer.addLdc
  unfold ldcBytes at forms
  split
  · rename_i near
    rw [if_pos near] at forms
    have lays : Lays Opcode.ldc [Opcode.ldc, index.toUInt8] (Opcode.growth Opcode.ldc) before
        ((before.addOpcode Opcode.ldc).addByte index.toUInt8) pool :=
      simple_ldc.1.lays_steady (by decide) ((Buffer.grows_addOpcode _ _).addByte _)
    exact ⟨_, _, lays.grows, forms, lays.measured, fun _ => lays.fits (by decide)⟩
  · rename_i far
    rw [if_neg far] at forms
    have lays : Lays Opcode.ldcW (Opcode.ldcW :: Binary.Writer.u16 index)
        (Opcode.growth Opcode.ldcW) before (before.addIndexed Opcode.ldcW index) pool :=
      simple_ldc.2.lays_steady (by decide) (Buffer.grows_addIndexed ..)
    exact ⟨_, _, lays.grows, forms, lays.measured, fun _ => lays.fits (by decide)⟩

theorem Moves.lays {short : Opcode} {kind : ValueKind} (moves : Moves opcode short kind)
    (added : before.addAccess opcode short kind slot = .ok after) :
    ∃ bytes growth, Lays opcode bytes growth before after pool := by
  obtain ⟨growth, grows, measured, fits, reserved⟩ := moves.grows added
  refine ⟨_, growth, grows, moves.forms fits, fun _ _ _ => measured _,
    fun _ accessed slot' found => ?_⟩
  rw [Machine.accessed?_access moves.accesses (fun slot => (moves.near slot).1) fits] at found
  cases found
  rwa [moves.width]

theorem lays_access (forms : Forms opcode bytes) (grows : Buffer.Grows bytes growth before after)
    (measured : ∀ pool, Code.plainEffect? pool bytes = some growth)
    (accessed : accessed? bytes = some (opcode, slot)) :
    Lays opcode bytes growth before (after.reserveLocals (slot + slotsOf opcode)) pool where
  grows := grows.reserveLocals _
  forms := forms
  measured _ _ _ := measured _
  fits _ other slot' found := by
    cases accessed.symm.trans found
    exact Buffer.le_maxLocals_reserveLocals ..

theorem lays_ret (added : before.addRet slot = .ok after) :
    ∃ bytes growth, Lays Opcode.ret bytes growth before after pool := by
  unfold Buffer.addRet at added
  obtain ⟨middle, slotted, added⟩ := bind_eq_ok.1 added
  cases pure_eq_ok.1 added
  obtain ⟨grows, fits⟩ := grows_addSlotted slotted
  have form : Opcode.form? Opcode.ret = some (.fixed 2) := by cbv
  exact ⟨_, _, lays_access (forms_slotted form (by decide) (by decide) (by decide) fits) grows
    (fun _ => plainEffect?_slotted (by decide) (by decide) slot) (Machine.accessed?_slotted (by decide) fits)⟩

theorem lays_iinc (delta : UInt8) (fits : slot ≤ 255) :
    ∃ bytes growth, Lays Opcode.iinc bytes growth before
      ((((before.addOpcode Opcode.iinc).addByte (UInt8.ofNat slot)).addByte delta).reserveLocals
        (slot + 1)) pool := by
  have form : Opcode.form? Opcode.iinc = some (.fixed 3) := by cbv
  have accessed : accessed? [Opcode.iinc, UInt8.ofNat slot, delta] = some (Opcode.iinc, slot) := by
    have same : (UInt8.ofNat slot).toNat = slot :=
      UInt8.toNat_ofNat_of_lt' (by simp [UInt8.size]; omega)
    simp [accessed?, same]
  have forms : Forms Opcode.iinc [Opcode.iinc, UInt8.ofNat slot, delta] :=
    ⟨wellFormed_fixed form (by decide), by rw [stem?, accessed]; rfl,
      by simp [Code.runsOn, show Opcode.iinc ≠ Opcode.wide by decide]⟩
  exact ⟨_, _, lays_access forms (((Buffer.grows_addOpcode _ _).addByte _).addByte _)
    (fun _ => Code.plainEffect?_steady (by decide) (by decide)) accessed⟩

theorem lays_iinc_wide (delta : UInt16) (fits : slot ≤ 65535) :
    ∃ bytes growth, Lays Opcode.iinc bytes growth before
      (((((before.addByte Opcode.wide).addOpcode Opcode.iinc).addU16 (UInt16.ofNat slot)).addU16
        delta).reserveLocals (slot + 1)) pool := by
  let bytes := Opcode.wide :: Opcode.iinc ::
    (Binary.Writer.u16 (UInt16.ofNat slot) ++ Binary.Writer.u16 delta)
  have accessed : accessed? bytes = some (Opcode.iinc, slot) := by
    have same : (UInt16.ofNat slot).toNat = slot :=
      UInt16.toNat_ofNat_of_lt' (by simp [UInt16.size]; omega)
    have denotes := Binary.BigEndian.value_bytes 2 slot
    rw [Nat.mod_eq_of_lt (by omega)] at denotes
    simp only [bytes, Binary.Writer.u16, same]
    simp only [Binary.BigEndian.bytes, List.nil_append, List.singleton_append] at denotes ⊢
    simp only [List.cons_append, List.nil_append, accessed?, denotes, and_self, if_true]
  have forms : Forms Opcode.iinc bytes :=
    ⟨wellFormed_wide rfl (.inl rfl), by rw [stem?, accessed]; rfl, by simp [bytes, Code.runsOn]; decide⟩
  exact ⟨_, _, lays_access forms (((Buffer.grows_addWide _ _).addBytes _).addBytes _)
    (fun _ => by simp [bytes, Code.plainEffect?]) accessed⟩

end Lays

theorem Ready.laid {buffer : Buffer} (ready : Ready start state)
    (lays : Lays opcode bytes growth state.buffer buffer pool) :
    Laid opcode start { state with buffer } pool := by
  obtain ⟨operands, rfl⟩ := ready
  exact ⟨bytes, growth, operands, buffer, lays, rfl⟩

theorem leads_emit_laid {change : Buffer → Buffer}
    (lays : ∀ buffer pool, ∃ bytes growth, Lays opcode bytes growth buffer (change buffer) pool) :
    Leads (fun state _ => Ready start state) (emit change) fun _ => Laid opcode start := by
  constructor
  intro state pool value state' pool' yields ready
  obtain ⟨rfl, rfl⟩ := yields_modify.1 yields
  obtain ⟨_, _, lays⟩ := lays state.buffer pool
  exact ready.laid lays

theorem leads_emitChecked_laid {change : Buffer → Except Error Buffer}
    (lays : ∀ before after pool, change before = .ok after →
      ∃ bytes growth, Lays opcode bytes growth before after pool) :
    Leads (fun state _ => Ready start state) (emitChecked change) fun _ => Laid opcode start := by
  constructor
  intro state pool value state' pool' yields ready
  obtain ⟨buffer, changed, rfl, rfl⟩ := yields_emitChecked.1 yields
  obtain ⟨_, _, lays⟩ := lays _ _ pool changed
  exact ready.laid lays

theorem leads_increment :
    Leads (fun state _ => Ready start state) increment fun _ => Laid Opcode.iinc start := by
  constructor
  intro state pool value state' pool' yields ready
  unfold increment at yields
  obtain ⟨slot, _, _, read, yields⟩ := yields_bind.1 yields
  have ready := (preserves_nextSlot Ready.operands).kept read ready
  obtain ⟨delta, _, _, read, yields⟩ := yields_bind.1 yields
  have ready := (preserves_nextInteger Ready.operands _ _ _).kept read ready
  dsimp only at yields
  split at yields
  · rename_i near
    obtain ⟨_, _, _, added, yields⟩ := yields_bind.1 yields
    obtain ⟨rfl, rfl⟩ := yields_modify.1 added
    obtain ⟨rfl, rfl⟩ := yields_modify.1 yields
    obtain ⟨_, _, lays⟩ := lays_iinc (Int8.ofInt delta).toUInt8 near.1
    exact ready.laid lays
  · split at yields
    · rename_i fits
      obtain ⟨_, _, _, added, yields⟩ := yields_bind.1 yields
      obtain ⟨rfl, rfl⟩ := yields_modify.1 added
      obtain ⟨rfl, rfl⟩ := yields_modify.1 yields
      obtain ⟨_, _, lays⟩ := lays_iinc_wide (Int16.ofInt delta).toUInt16 fits
      exact ready.laid lays
    · obtain ⟨_, _, _, failed, _⟩ := yields_bind.1 yields
      exact absurd failed not_yields_fail

theorem fieldGrowth_eq (between : Opcode.getstatic ≤ opcode ∧ opcode ≤ Opcode.putfield)
    (type : FieldType) : fieldGrowth opcode type.width = Code.fieldEffect opcode type := by
  have apart : Opcode.getstatic ≠ Opcode.putstatic ∧ Opcode.getstatic ≠ Opcode.getfield ∧
      Opcode.getstatic ≠ Opcode.putfield ∧ Opcode.putstatic ≠ Opcode.getfield ∧
      Opcode.putstatic ≠ Opcode.putfield ∧ Opcode.getfield ≠ Opcode.putfield := by decide
  rcases ((row opcode).field between).2.1 with rfl | rfl | rfl | rfl <;>
    simp [fieldGrowth, Code.fieldEffect, apart, Ne.symm]

theorem stackEffect_eq (other : opcode ≠ Opcode.invokedynamic) (type : MethodType) :
    type.stackEffect (opcode ≠ Opcode.invokestatic) = Code.callEffect opcode type := by
  rw [MethodType.stackEffect, Code.callEffect, Code.parameterSlots_eq]
  by_cases same : opcode = Opcode.invokestatic
  · simp [same]
  · simp [same, other]
    omega

theorem leads_fieldAccess (between : Opcode.getstatic ≤ opcode ∧ opcode ≤ Opcode.putfield) :
    Leads (fun state _ => Ready start state) (fieldAccess opcode) fun _ => Laid opcode start := by
  obtain ⟨simple, _, varies⟩ := (row opcode).field between
  have fixed := (row opcode).varies varies
  unfold fieldAccess
  apply Leads.bind (.keep (preserves_nextMember Ready.operands _))
  intro field
  split
  · exact Leads.fail
  · rename_i type parsed
    apply Leads.bind (Leads.inPool _)
    intro index
    constructor
    rintro state pool value state' pool' yields ⟨⟨earlier, interned⟩, ready⟩
    obtain ⟨rfl, rfl⟩ := yields_modify.1 yields
    have grows := (Buffer.grows_addIndexed state.buffer opcode index).grow
      (fieldGrowth opcode type.width)
    refine ready.laid (simple.lays grows fun later extended sound => ?_)
    obtain ⟨constant, known, denotes⟩ := (Pool.answers_internField _ _ _).found interned
    have described := Pool.descriptor?_field ((known.extended extended).get sound)
      (denotes.mono fun known => (known.extended extended).get sound)
    rw [fixed, zero_add, fieldGrowth_eq between, ← Code.constantEffect?_field between.2 described parsed]
    simpa using @Code.plainEffect?_indexed later opcode index [] simple.2.2.2.2.2 varies

theorem leads_call (between : Opcode.invokevirtual ≤ opcode ∧ opcode ≤ Opcode.invokeinterface) :
    Leads (fun state _ => Ready start state) (call opcode) fun _ => Laid opcode start := by
  obtain ⟨simple, beyond, varies⟩ := (row opcode).call between
  have fixed := (row opcode).varies varies
  unfold call
  apply Leads.bind (.keep (preserves_nextMember Ready.operands _))
  intro method
  split
  · exact Leads.fail
  · rename_i type parsed
    dsimp only
    apply Leads.bind (Leads.inPool _)
    intro index
    constructor
    rintro state pool value state' pool' yields ⟨⟨earlier, interned⟩, ready⟩
    have measured (rest : List UInt8) (later : Pool) (extended : Pool.Extended pool later)
        (sound : later.Sound) : Code.plainEffect? later (opcode :: (Binary.Writer.u16 index ++ rest)) =
          some (type.stackEffect (opcode ≠ Opcode.invokestatic)) := by
      obtain ⟨constant, known, denotes⟩ := (Pool.answers_internMethod _ _ _ _).found interned
      have described := Pool.descriptor?_method ((known.extended extended).get sound)
        (denotes.mono fun known => (known.extended extended).get sound)
      rw [Code.plainEffect?_indexed simple.2.2.2.2.2 varies,
        Code.constantEffect?_call beyond.1 beyond.2.1 described parsed, stackEffect_eq beyond.2.2]
    obtain ⟨_, _, _, added, yields⟩ := yields_bind.1 yields
    obtain ⟨rfl, rfl⟩ := yields_modify.1 added
    have grows := Buffer.grows_addIndexed state.buffer opcode index
    by_cases interface : opcode = Opcode.invokeinterface
    · rw [if_pos interface] at simple
      rw [if_pos (by simpa using interface)] at yields
      split at yields
      · obtain ⟨_, _, _, failed, _⟩ := yields_bind.1 yields
        exact absurd failed not_yields_fail
      · obtain ⟨_, _, _, added, yields⟩ := yields_bind.1 yields
        obtain ⟨rfl, rfl⟩ := yields_modify.1 added
        obtain ⟨rfl, rfl⟩ := yields_modify.1 yields
        have grows := (((grows.addByte (UInt8.ofNat (type.parameterSlots true))).addByte 0).grow
          (type.stackEffect (opcode ≠ Opcode.invokestatic)))
        rw [fixed, zero_add] at grows
        have simple : Simple opcode ((Binary.Writer.u16 index ++
          [UInt8.ofNat (type.parameterSlots true), 0]).length + 1) := simple
        exact ready.laid (simple.lays (by simpa using grows) (measured _))
    · rw [if_neg interface] at simple
      rw [if_neg (by simpa using interface)] at yields
      obtain ⟨rfl, rfl⟩ := yields_modify.1 yields
      have grows := grows.grow (type.stackEffect (opcode ≠ Opcode.invokestatic))
      rw [fixed, zero_add] at grows
      have simple : Simple opcode ((Binary.Writer.u16 index).length + 1) := simple
      exact ready.laid (simple.lays grows (by simpa using measured []))

theorem leads_newArray :
    Leads (fun state _ => Ready start state) newArray fun _ => Laid Opcode.newarray start := by
  have simple : Simple Opcode.newarray 2 := by decide_cbv
  unfold newArray
  apply Leads.bind (.keep (preserves_nextWord Ready.operands _))
  intro element
  split
  · rename_i code _
    exact leads_emit_laid fun buffer pool => ⟨[Opcode.newarray, code], _,
      simple.lays_steady (by decide) ((Buffer.grows_addOpcode _ _).addByte _)⟩
  · exact Leads.fail

theorem leads_newArrays :
    Leads (fun state _ => Ready start state) newArrays fun _ => Laid Opcode.multianewarray start := by
  have simple : Simple Opcode.multianewarray 4 := by decide_cbv
  unfold newArrays
  apply Leads.bind (.keep (preserves_nextWord Ready.operands _))
  intro word
  apply Leads.bind (.keep (preserves_classConstant word))
  intro index
  constructor
  intro state pool value state' pool' yields ready
  obtain ⟨dimensions, _, _, read, yields⟩ := yields_bind.1 yields
  obtain ⟨_, _, _, _, _, _, between, _⟩ := yields_nextInteger read
  have ready := (preserves_nextInteger Ready.operands _ _ _).kept read ready
  split at yields
  · exact absurd yields not_yields_fail
  · obtain ⟨rfl, rfl⟩ := yields_modify.1 yields
    have simple : Simple Opcode.multianewarray ((Binary.Writer.u16 index ++
      [UInt8.ofNat dimensions.toNat]).length + 1) := simple
    refine ready.laid (simple.lays (((Buffer.grows_addIndexed _ _ _).addByte _).grow _) fun _ _ _ => ?_)
    have same : ((UInt8.ofNat dimensions.toNat).toNat : Int) = dimensions := by
      rw [UInt8.toNat_ofNat_of_lt' (by simp [UInt8.size]; omega)]
      omega
    have fixed : Opcode.growth Opcode.multianewarray = 0 := (row _).varies (by decide)
    rw [Code.plainEffect?_indexed (by decide) (by decide)]
    simp only [Code.constantEffect?, if_true, List.head?_cons, Option.map_some, same, fixed, zero_add]

end ClassSplice.Assembler
