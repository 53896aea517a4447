import ClassSplice.Proofs.Edit.Change
import ClassSplice.Proofs.Edit.Guard

namespace ClassSplice

open Code (Buffer Cursor Handler HandlerTable Holds Listing Located Opcode Reads Runs Weaving Woven)
open Descriptor (FieldType ValueKind)

namespace Code

def plainsFrom (start : Nat) : List (List UInt8) → List (Nat × Located)
  | [] => []
  | bytes :: rest => (start, ⟨bytes.length, .plain bytes⟩) :: plainsFrom (start + bytes.length) rest

structure Ordinary (bytes : List UInt8) : Prop where
  reads : ∀ {code : Array UInt8} {pos : Nat}, Holds code pos bytes →
    Reads code pos ⟨bytes.length, .plain bytes⟩
  stays : ¬ (Instruction.plain bytes).IsReturn

theorem runs_plainsFrom {code : Array UInt8} {start : Nat} {parts : List (List UInt8)}
    (ordinary : ∀ bytes ∈ parts, Ordinary bytes) (held : Holds code start parts.flatten) :
    Runs code start (plainsFrom start parts) (start + parts.flatten.length) := by
  induction parts generalizing start with
  | nil => exact .done start
  | cons bytes parts ih =>
      rw [List.flatten_cons] at held ⊢
      obtain ⟨first, rest⟩ := holds_append.1 held
      rw [List.length_append, ← Nat.add_assoc]
      exact .step ((ordinary bytes List.mem_cons_self).reads first)
        (ih (fun bytes member => ordinary bytes (List.mem_cons_of_mem _ member)) rest)

theorem stop_of_runs_plainsFrom {code : Array UInt8} {start stop : Nat} {parts : List (List UInt8)}
    (run : Runs code start (plainsFrom start parts) stop) : stop = start + parts.flatten.length := by
  induction parts generalizing start with
  | nil =>
      cases run
      rfl
  | cons bytes parts ih =>
      cases run with
      | step _ rest =>
          rw [ih rest, List.flatten_cons, List.length_append, Nat.add_assoc]

theorem not_isReturn_of_mem_plainsFrom {start : Nat} {parts : List (List UInt8)}
    (ordinary : ∀ bytes ∈ parts, Ordinary bytes) {entry : Nat × Located}
    (member : entry ∈ plainsFrom start parts) : ¬ entry.2.instruction.IsReturn := by
  induction parts generalizing start with
  | nil => cases member
  | cons bytes parts ih =>
      rcases List.mem_cons.1 member with rfl | later
      · exact (ordinary bytes List.mem_cons_self).stays
      · exact ih (fun bytes member => ordinary bytes (List.mem_cons_of_mem _ member)) later

theorem Woven.runs_plains {base code : Array UInt8} {old : Listing} {weaving : Weaving} {start : Nat}
    {parts : List (List UInt8)} (woven : Woven old weaving code)
    (run : Runs base start (plainsFrom start parts) old.next)
    (listed : ∀ entry ∈ plainsFrom start parts, entry ∈ old.entries)
    (blank : ∀ pos, old.IsBoundary pos → start ≤ pos → weaving.inserted pos = []) :
    Runs code (weaving.enter start) (plainsFrom (weaving.enter start) parts) code.size := by
  induction parts generalizing start with
  | nil =>
      cases run
      rw [woven.enter_eq_place (.inl rfl) (blank _ (.inl rfl) (Nat.le_refl _)), woven.stop]
      exact .done _
  | cons bytes parts ih =>
      have member := listed _ List.mem_cons_self
      have boundary : old.IsBoundary start := .inr ⟨_, member⟩
      obtain ⟨reads, behind⟩ := woven.reads_plain member rfl
      rw [← woven.enter_eq_place boundary (blank start boundary (Nat.le_refl _))] at reads behind
      cases run with
      | step _ rest =>
          refine .step reads ?_
          dsimp only at behind rest ⊢
          rw [← behind]
          exact ih rest (fun entry member => listed entry (List.mem_cons_of_mem _ member))
            fun pos known above => blank pos known (by omega)

end Code

namespace Edit

def loadBytes (kind : ValueKind) (slot : Nat) : List UInt8 :=
  Buffer.accessBytes kind.loadOpcode Opcode.iload0 kind slot

def keepBytes (kind : ValueKind) (slot : Nat) : List UInt8 :=
  Buffer.accessBytes kind.storeOpcode Opcode.istore0 kind slot

def keepResult (result : Nat) : Option ValueKind → List (List UInt8)
  | none => [[Opcode.aconstNull], keepBytes .reference result]
  | some kind => [keepBytes kind result, loadBytes kind result]

def subroutine (address result : Nat) (returns : Option ValueKind) : List (List UInt8) :=
  keepBytes .reference address :: keepResult result returns ++ [slottedBytes Opcode.ret address]

theorem ordinary_subroutine (address result : Nat) (returns : Option ValueKind) :
    ∀ bytes ∈ subroutine address result returns, Code.Ordinary bytes := by
  have keep (kind : ValueKind) (slot : Nat) : Code.Ordinary (keepBytes kind slot) :=
    ⟨(accesses_store kind).reads slot, (accesses_store kind).not_isReturn slot⟩
  have load (kind : ValueKind) (slot : Nat) : Code.Ordinary (loadBytes kind slot) :=
    ⟨(accesses_load kind).reads slot, (accesses_load kind).not_isReturn slot⟩
  have null : Code.Ordinary [Opcode.aconstNull] := by
    refine ⟨reads_single (by decide +kernel) (by decide), ?_⟩
    rintro ⟨_, ⟨⟩, returns⟩
    exact absurd returns (by decide)
  have ret (slot : Nat) : Code.Ordinary (slottedBytes Opcode.ret slot) := by
    refine ⟨reads_slotted (by decide +kernel) (by decide) (by decide) slot, ?_⟩
    rintro ⟨_, same, _⟩
    have same := Code.Instruction.plain.inj same
    unfold slottedBytes at same
    split at same
    · cases same
    · cases same
  intro bytes member
  cases returns with
  | none =>
      simp only [subroutine, keepResult, List.cons_append, List.nil_append, List.mem_cons,
        List.not_mem_nil, or_false] at member
      rcases member with rfl | rfl | rfl | rfl
      · exact keep _ _
      · exact null
      · exact keep _ _
      · exact ret _
  | some kind =>
      simp only [subroutine, keepResult, List.cons_append, List.nil_append, List.mem_cons,
        List.not_mem_nil, or_false] at member
      rcases member with rfl | rfl | rfl | rfl
      · exact keep _ _
      · exact keep _ _
      · exact load _ _
      · exact ret _

section Compile

variable {buffer after : Buffer} {pool pool' : Pool}

theorem slot_le_of_addSlotted {opcode : Opcode} {slot : Nat}
    (added : buffer.addSlotted opcode slot = .ok after) : slot ≤ 65535 := by
  unfold Buffer.addSlotted at added
  split at added
  · omega
  · split at added
    · assumption
    · cases added

theorem slot_le_of_addAccess {opcode short : Opcode} {kind : ValueKind} {slot : Nat}
    (added : buffer.addAccess opcode short kind slot = .ok after) : slot ≤ 65535 := by
  simp only [Buffer.addAccess] at added
  split at added
  · omega
  · obtain ⟨_, slotted, _⟩ := bind_eq_ok.1 added
    exact slot_le_of_addSlotted slotted

theorem toList_addRet {slot : Nat} (added : buffer.addRet slot = .ok after) :
    after.bytes.toList = buffer.bytes.toList ++ slottedBytes Opcode.ret slot := by
  obtain ⟨middle, slotted, added⟩ := bind_eq_ok.1 added
  cases pure_eq_ok.1 added
  unfold Buffer.addSlotted at slotted
  unfold slottedBytes
  split at slotted
  · rename_i short
    cases slotted
    simp [short]
  · rename_i far
    split at slotted
    · cases slotted
      simp [far]
    · cases slotted

theorem compileSubroutine_empty {returns : Option FieldType} {address result : Nat}
    {scope : Assembler.Scope}
    (done : outcome (compileSubroutine assemble "" returns address result scope buffer) pool =
      (.ok after, pool')) :
    after.bytes.toList = buffer.bytes.toList ++
        (subroutine address result (returns.map FieldType.kind)).flatten ∧
      after.handlers = buffer.handlers ∧ result ≤ 65535 := by
  have nothing {before compiled : Buffer} {pool pool' : Pool}
      (done : outcome (compileWith assemble "" scope before) pool = (.ok compiled, pool')) :
      before = compiled := by
    obtain ⟨_, assembled⟩ := outcome_compileWith_eq_ok.1 done
    cases (Assembler.assemble_empty scope before pool).symm.trans assembled
    rfl
  unfold compileSubroutine at done
  obtain ⟨stored, _, step, done⟩ := outcome_bind_eq_ok.1 done
  obtain ⟨store, rfl⟩ := outcome_demand_eq_ok.1 step
  have kept : stored.bytes.toList = buffer.bytes.toList ++ keepBytes .reference address :=
    Buffer.toList_addAccess store
  have same := (Buffer.extends_addStore store).handlers
  cases returns with
  | none =>
      obtain ⟨second, _, step, done⟩ := outcome_bind_eq_ok.1 done
      obtain ⟨keep, rfl⟩ := outcome_demand_eq_ok.1 step
      obtain ⟨compiled, _, step, done⟩ := outcome_bind_eq_ok.1 done
      obtain rfl := nothing step
      obtain ⟨ret, _⟩ := outcome_demand_eq_ok.1 done
      refine ⟨?_, ?_, slot_le_of_addAccess keep⟩
      · rw [toList_addRet ret, Buffer.toList_addAccess keep, Buffer.toList_addOpcode, kept]
        simp [subroutine, keepResult, keepBytes]
      · rw [(Buffer.extends_addRet ret).handlers, (Buffer.extends_addStore keep).handlers,
          Buffer.handlers_addOpcode, same]
  | some type =>
      obtain ⟨second, _, step, done⟩ := outcome_bind_eq_ok.1 done
      obtain ⟨keep, rfl⟩ := outcome_demand_eq_ok.1 step
      obtain ⟨compiled, _, step, done⟩ := outcome_bind_eq_ok.1 done
      obtain rfl := nothing step
      obtain ⟨loaded, _, step, done⟩ := outcome_bind_eq_ok.1 done
      obtain ⟨load, rfl⟩ := outcome_demand_eq_ok.1 step
      obtain ⟨ret, _⟩ := outcome_demand_eq_ok.1 done
      refine ⟨?_, ?_, slot_le_of_addAccess keep⟩
      · rw [toList_addRet ret, Buffer.toList_addAccess load, Buffer.toList_addAccess keep, kept]
        simp [subroutine, keepResult, keepBytes, loadBytes]
      · rw [(Buffer.extends_addRet ret).handlers, (Buffer.extends_addLoad load).handlers,
          (Buffer.extends_addStore keep).handlers, same]

theorem compileAfter_empty {context : Context} {code : Code} {handlerLength : Nat}
    (done : outcome (compileAfter assemble "" context code false) pool =
      (.ok (handlerLength, after), pool')) :
    handlerLength = 0 ∧ after.handlers = [] ∧ ∃ result, code.maxLocals.toNat < result ∧
      result ≤ 65535 ∧ after.bytes.toList =
        (subroutine code.maxLocals.toNat result (context.type.returns.map FieldType.kind)).flatten := by
  obtain ⟨slots, reserved⟩ := exists_scope_eq context
    ((Buffer.empty 0 code.maxLocals.toNat).reserveLocals (code.maxLocals.toNat + 1))
  unfold compileAfter at done
  dsimp only at done
  generalize context.scope _ = bound at done reserved
  obtain ⟨scope, buffer⟩ := bound
  cases reserved
  obtain ⟨⟨_, _, _⟩, _, step, done⟩ := outcome_bind_eq_ok.1 done
  obtain ⟨declared, rfl⟩ := outcome_demand_eq_ok.1 step
  obtain ⟨_, rfl, rfl, rfl⟩ := Assembler.Scope.declare_eq_ok.1 declared
  obtain ⟨_, _, step, done⟩ := outcome_bind_eq_ok.1 done
  obtain ⟨rfl, rfl⟩ := outcome_pure_eq_ok.1 step
  obtain ⟨compiled, _, step, done⟩ := outcome_bind_eq_ok.1 done
  obtain ⟨same, _⟩ := outcome_pure_eq_ok.1 done
  cases same
  obtain ⟨bytes, handlers, fits⟩ := compileSubroutine_empty step
  refine ⟨rfl, handlers, _, ?_, fits, bytes⟩
  show code.maxLocals.toNat < max (max _ (code.maxLocals.toNat + 1)) slots
  omega

end Compile

theorem handlers_of_appendAfter {code base : Code} {start handlerLength length : Nat}
    {buffer : Buffer} (none : buffer.handlers = [])
    (appended : appendAfter code start handlerLength buffer false = .ok (length, base)) :
    base.handlers = code.handlers := by
  unfold appendAfter at appended
  obtain ⟨raised, step, appended⟩ := bind_eq_ok.1 appended
  obtain ⟨_, _, _, handlers⟩ := raiseLimits_eq_ok step
  obtain ⟨⟨block, cursor⟩, step, appended⟩ := bind_eq_ok.1 appended
  obtain ⟨_, _, _, _, same⟩ := append_eq_ok step
  obtain ⟨_, step, appended⟩ := bind_eq_ok.1 appended
  obtain ⟨_, added, finished⟩ := bind_eq_ok.1 step
  cases pure_eq_ok.1 finished
  cases pure_eq_ok.1 appended
  obtain ⟨own, shifted, rfl⟩ := shifted_of_append added
  rw [none] at shifted
  cases shifted
  exact (List.append_nil _).trans (same.trans handlers)

/-- A body that stands among calls of a subroutine, which keeps the return address and a result in two
slots that are not the body's. -/
structure Epilogue (code code' : Code) (returns : Option ValueKind) (result : Nat)
    (body old : Listing) (weaving : Weaving) (entry : Nat) : Prop where
  apart : code.maxLocals.toNat < result
  fits : result ≤ 65535
  decoded : ∃ base, Listing.decode base = .ok old
  front : body.entries.toList <+: old.entries.toList
  woven : Woven old weaving code'.bytes
  handlers : List.Forall₂ (Handler.Carried weaving) code.handlers code'.handlers
  calls : CallsReturns body old entry weaving
  subroutine : Code.Runs code'.bytes (weaving.place entry)
    (Code.plainsFrom (weaving.place entry) (subroutine code.maxLocals.toNat result returns))
    code'.bytes.size

theorem Scanning.blank {old : Listing} {table : HandlerTable} {weaving : Weaving} {cursor : Cursor}
    {entry pos : Nat} (scanning : Scanning old table weaving cursor)
    (still : ∀ {pos : Nat} {located : Located}, (pos, located) ∈ old.entries → entry ≤ pos →
      ¬ located.instruction.IsReturn) (boundary : old.IsBoundary pos) (behind : entry ≤ pos) :
    weaving.inserted pos = [] := by
  rcases scanning.calls boundary with empty | ⟨_, located, member, returns⟩
  · exact empty
  · exact absurd returns (still member behind)

section Attached

variable {code base code' : Code} {buffer : Buffer} {length total result : Nat}
  {returns : Option ValueKind} {body old : Listing}

theorem Attached.runs_subroutine (attached : Attached code 0 buffer length base)
    (bytes : buffer.bytes.toList = (subroutine code.maxLocals.toNat result returns).flatten)
    (decodedBody : Listing.decode code.bytes = .ok body)
    (decoded : Listing.decode base.bytes = .ok old) :
    ∃ entry, entry + length = base.bytes.size ∧ Joined code base body old entry ∧
      Code.Runs base.bytes entry
        (Code.plainsFrom entry (subroutine code.maxLocals.toNat result returns)) old.next := by
  have begins : [] ++ storeBytes code.maxLocals.toNat <+: buffer.bytes.toList := by
    rw [bytes]
    exact List.prefix_append _ _
  have joined := attached.joined stays_nil rfl begins decodedBody decoded
  obtain ⟨padding, whole⟩ := attached.bytes
  have placed : base.bytes.size - length = code.bytes.size + padding :=
    attached.entry_eq whole rfl begins
  have measured : buffer.bytes.size = length := attached.length.symm
  have size := (Code.decode_eq_ok.1 decoded).2
  have ended : code.bytes.size + padding + length = base.bytes.size := by
    rw [whole, Array.size_append, Array.size_append, Array.size_replicate, measured]
  have split : base.bytes.toList = (code.bytes ++ Array.replicate padding Opcode.nop).toList ++
      (subroutine code.maxLocals.toNat result returns).flatten ++ [] := by
    rw [whole, Array.toList_append, bytes, List.append_nil]
  have held := Holds.of_toList split
  rw [Array.length_toList, Array.size_append, Array.size_replicate] at held
  have run := Code.runs_plainsFrom (ordinary_subroutine _ _ _) held
  rw [← bytes, Array.length_toList, measured, ended, ← size] at run
  rw [placed] at joined
  exact ⟨_, ended, joined, run⟩

theorem Attached.epilogue (attached : Attached code 0 buffer length base)
    (apart : code.maxLocals.toNat < result) (fits : result ≤ 65535)
    (same : base.handlers = code.handlers)
    (bytes : buffer.bytes.toList = (subroutine code.maxLocals.toNat result returns).flatten)
    (decodedBody : Listing.decode code.bytes = .ok body)
    (decoded : Listing.decode base.bytes = .ok old)
    (done : callBeforeReturns base length = .ok (total, code')) :
    ∃ weaving entry, Epilogue code code' returns result body old weaving entry := by
  obtain ⟨entry, measured, joined, run⟩ := attached.runs_subroutine bytes decodedBody decoded
  have boundary : old.IsBoundary entry := .inr ⟨_, joined.store⟩
  have still {pos : Nat} {located : Located} (known : (pos, located) ∈ old.entries)
      (above : entry ≤ pos) : ¬ located.instruction.IsReturn :=
    Code.not_isReturn_of_mem_plainsFrom (ordinary_subroutine _ _ _)
      ((Code.mem_iff_of_runs decoded boundary run).2 ⟨known, above⟩)
  have moved {weaving : Weaving} {cursor : Cursor} (scanning : Scanning old base.handlers weaving cursor) :
      Code.Runs cursor.code.bytes (weaving.enter entry) (Code.plainsFrom (weaving.enter entry)
        (subroutine code.maxLocals.toNat result returns)) cursor.code.bytes.size :=
    scanning.woven.runs_plains run
      (fun _ member => ((Code.mem_iff_of_runs decoded boundary run).1 member).1)
      fun _ => scanning.blank still
  have length_eq : (subroutine code.maxLocals.toNat result returns).flatten.length = length := by
    rw [← bytes, Array.length_toList]
    exact attached.length.symm
  have rigid {weaving : Weaving} {cursor : Cursor} (scanning : Scanning old base.handlers weaving cursor) :
      weaving.enter entry + length = cursor.code.bytes.size := by
    rw [← length_eq]
    exact (Code.stop_of_runs_plainsFrom (moved scanning)).symm
  obtain ⟨weaving, marks, last, scan, rfl, _, scanned, exactly⟩ :=
    callBeforeReturns_iff joined attached.bounded measured done
  obtain ⟨initial, scanning, enter⟩ := exists_scanning_start attached.bounded decoded
  have kept := Scan.keepsLength decoded boundary scanning rigid (by rwa [enter])
  have woven := scanned.woven
  have subroutine := moved scanned
  rw [woven.enter_eq_place boundary (scanned.blank still boundary (Nat.le_refl _))] at subroutine
  exact ⟨weaving, entry, apart, fits, ⟨base.bytes, decoded⟩, joined.front, woven, same ▸ scanned.handlers,
    exactly.2 kept, subroutine⟩

end Attached

theorem insertAfter_epilogue {editor editor' : Editor} {index : Nat}
    (done : outcome (insertAfter assemble index "" false) editor = (.ok (), editor')) :
    ∃ context code code' pool result, outcome (contextAt index) editor = (.ok context, editor) ∧
      Replaced editor editor' index code code' pool ∧
      ∀ body, Listing.decode code.bytes = .ok body → ∃ old weaving entry,
        Epilogue code code' (context.type.returns.map FieldType.kind) result body old weaving entry := by
  obtain ⟨context, isConstructor, code, code', pool, known, _, edited, replaced⟩ :=
    insertAfter_replaced done
  obtain ⟨start, handlerLength, buffer, length, base, calls, _, compiled, appended, scanned⟩ :=
    outcome_withEpilogue_eq_ok.1 edited
  obtain ⟨rfl, none, result, apart, fits, bytes⟩ := compileAfter_empty compiled
  have attached := appendAfter_attached appended
  have handlers := handlers_of_appendAfter none appended
  refine ⟨context, code, code', pool, result, known, replaced, fun body decodedBody => ?_⟩
  obtain ⟨listing, decodedAfter, _⟩ := checkBody_sound replaced.sound
  obtain ⟨old, decoded⟩ := exists_decode_of_callFrom scanned decodedAfter
  exact ⟨old, attached.epilogue apart fits handlers bytes decodedBody decoded scanned⟩

end Edit
end ClassSplice
