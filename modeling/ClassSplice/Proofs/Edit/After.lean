import ClassSplice.Edit.Snippet
import ClassSplice.Proofs.Assembler.Growth
import ClassSplice.Proofs.Edit.Before
import ClassSplice.Proofs.Edit.Finally
import ClassSplice.Proofs.Edit.Scan

namespace ClassSplice.Edit

open Code (Buffer Cursor Handler Holds Listing Located Opcode Runs Weaving Woven)
open Descriptor (ValueKind)

def storeBytes (slot : Nat) : List UInt8 :=
  Buffer.accessBytes ValueKind.reference.storeOpcode Opcode.istore0 .reference slot

section Compile

variable {source : String} {pool pool' : Pool} {buffer after : Buffer}

theorem outcome_compileWith_grown {scope : Assembler.Scope}
    (done : outcome (compileWith assemble source scope buffer) pool = (.ok after, pool')) :
    buffer.bytes.toList <+: after.bytes.toList := by
  obtain ⟨_, assembled⟩ := outcome_compileWith_eq_ok.1 done
  exact (Assembler.assemble_grown assembled).bytes

theorem outcome_compileSubroutine_begins {returns : Option Descriptor.FieldType}
    {returnAddress result : Nat} {scope : Assembler.Scope}
    (done : outcome (compileSubroutine assemble source returns returnAddress result scope buffer)
      pool = (.ok after, pool')) :
    buffer.bytes.toList ++ storeBytes returnAddress <+: after.bytes.toList := by
  unfold compileSubroutine at done
  obtain ⟨stored, _, step, done⟩ := outcome_bind_eq_ok.1 done
  obtain ⟨store, rfl⟩ := outcome_demand_eq_ok.1 step
  rw [storeBytes, ← Buffer.toList_addAccess store]
  cases returns with
  | none =>
      obtain ⟨kept, _, step, done⟩ := outcome_bind_eq_ok.1 done
      obtain ⟨keep, rfl⟩ := outcome_demand_eq_ok.1 step
      obtain ⟨compiled, _, step, done⟩ := outcome_bind_eq_ok.1 done
      obtain ⟨ret, _⟩ := outcome_demand_eq_ok.1 done
      have null : stored.Extends (stored.addOpcode Opcode.aconstNull) := ⟨by simp, rfl⟩
      exact (null.trans (Buffer.extends_addStore keep)).bytes.trans
        ((outcome_compileWith_grown step).trans (Buffer.extends_addRet ret).bytes)
  | some type =>
      obtain ⟨kept, _, step, done⟩ := outcome_bind_eq_ok.1 done
      obtain ⟨keep, rfl⟩ := outcome_demand_eq_ok.1 step
      obtain ⟨compiled, _, step, done⟩ := outcome_bind_eq_ok.1 done
      obtain ⟨loaded, _, last, done⟩ := outcome_bind_eq_ok.1 done
      obtain ⟨load, rfl⟩ := outcome_demand_eq_ok.1 last
      obtain ⟨ret, _⟩ := outcome_demand_eq_ok.1 done
      exact (Buffer.extends_addStore keep).bytes.trans ((outcome_compileWith_grown step).trans
        ((Buffer.extends_addLoad load).trans (Buffer.extends_addRet ret)).bytes)

theorem outcome_compileAfter_begins {context : Context} {code : Code} {asFinally : Bool}
    {handlerLength : Nat}
    (done : outcome (compileAfter assemble source context code asFinally) pool =
      (.ok (handlerLength, after), pool')) :
    ∃ handler, Stays handler ∧ handler.length = handlerLength ∧
      handler ++ storeBytes code.maxLocals.toNat <+: after.bytes.toList := by
  unfold compileAfter at done
  obtain ⟨⟨result, scope, entered⟩, _, step, done⟩ := outcome_bind_eq_ok.1 done
  obtain ⟨bound, rfl⟩ := outcome_demand_eq_ok.1 step
  obtain ⟨_, rfl, rfl, rfl⟩ := Assembler.Scope.declare_eq_ok.1 bound
  have begins {handler : Buffer} {pool : Pool} {result : Nat} {scope : Assembler.Scope}
      (stays : Stays handler.bytes.toList)
      (done : outcome (do
        let buffer ← compileSubroutine assemble source context.type.returns code.maxLocals.toNat
          result scope (handler.setDepth (code.maxStack.toNat + 1))
        return (handler.pc, buffer)) pool = (.ok (handlerLength, after), pool')) :
      ∃ handler, Stays handler ∧ handler.length = handlerLength ∧
        handler ++ storeBytes code.maxLocals.toNat <+: after.bytes.toList := by
    obtain ⟨compiled, _, step, done⟩ := outcome_bind_eq_ok.1 done
    obtain ⟨same, _⟩ := outcome_pure_eq_ok.1 done
    cases same
    have begun := outcome_compileSubroutine_begins step
    rw [Buffer.bytes_setDepth] at begun
    exact ⟨handler.bytes.toList, stays, Array.length_toList, begun⟩
  cases asFinally with
  | false => exact begins stays_nil done
  | true =>
      obtain ⟨handler, _, step, done⟩ := outcome_bind_eq_ok.1 done
      obtain ⟨added, rfl⟩ := outcome_demand_eq_ok.1 step
      exact begins (stays_of_addFinallyHandler rfl added) done

end Compile

theorem le_of_appendOffset {length offset : Nat} {code : Array UInt8}
    (found : Cursor.appendOffset length code = .ok offset) : length ≤ offset := by
  unfold Cursor.appendOffset at found
  split at found
  · exact Nat.le_of_eq (pure_eq_ok.1 found)
  · obtain ⟨switches, _, found⟩ := bind_eq_ok.1 found
    split at found
    · rw [← pure_eq_ok.1 found]
      exact Nat.le_add_right _ _
    · exact Nat.le_of_eq (pure_eq_ok.1 found)

theorem append_eq_ok {cursor next : Cursor} {code : Array UInt8} {offset : Nat}
    (appended : cursor.append code = .ok (offset, next)) :
    ∃ padding, offset = cursor.code.bytes.size + padding ∧
      next.code.bytes = cursor.code.bytes ++ Array.replicate padding Opcode.nop ++ code ∧
      next.code.bytes.size ≤ Code.maxLength ∧ next.code.handlers = cursor.code.handlers := by
  unfold Cursor.append at appended
  obtain ⟨found, step, appended⟩ := bind_eq_ok.1 appended
  have above := le_of_appendOffset step
  split at appended
  · cases appended
  · rename_i fits
    cases pure_eq_ok.1 appended
    refine ⟨offset - cursor.code.bytes.size, by omega, rfl, ?_, rfl⟩
    simp only [Array.size_append, Array.size_replicate]
    omega

/-- A body with a subroutine of `length` bytes behind it. -/
structure Attached (code : Code) (handlerLength : Nat) (buffer : Buffer) (length : Nat)
    (base : Code) : Prop where
  length : length = buffer.pc - handlerLength
  bytes : ∃ padding, base.bytes = code.bytes ++ Array.replicate padding Opcode.nop ++ buffer.bytes
  bounded : base.bytes.size ≤ Code.maxLength
  handlers : code.handlers <+: base.handlers

theorem appendAfter_attached {code base : Code} {start handlerLength length : Nat} {buffer : Buffer}
    {asFinally : Bool}
    (appended : appendAfter code start handlerLength buffer asFinally = .ok (length, base)) :
    Attached code handlerLength buffer length base := by
  unfold appendAfter at appended
  obtain ⟨raised, step, appended⟩ := bind_eq_ok.1 appended
  obtain ⟨_, _, bytes, handlers⟩ := raiseLimits_eq_ok step
  obtain ⟨⟨block, cursor⟩, step, appended⟩ := bind_eq_ok.1 appended
  obtain ⟨padding, rfl, whole, bounded, same⟩ := append_eq_ok step
  obtain ⟨cursor', step, appended⟩ := bind_eq_ok.1 appended
  obtain ⟨table, added, finished⟩ := bind_eq_ok.1 step
  cases pure_eq_ok.1 finished
  obtain ⟨moved, _, finished⟩ := bind_eq_ok.1 added
  obtain rfl := pure_eq_ok.1 finished
  have whole : cursor.code.bytes = code.bytes ++ Array.replicate padding Opcode.nop ++
      buffer.bytes := by
    rw [whole]
    show raised.bytes ++ _ ++ _ = _
    rw [bytes]
  have same : cursor.code.handlers = code.handlers := same.trans handlers
  have length : cursor.code.bytes.size - ((Cursor.start raised).code.bytes.size + padding) -
      handlerLength = buffer.pc - handlerLength := by
    show cursor.code.bytes.size - (raised.bytes.size + padding) - _ = _
    rw [whole, bytes]
    simp only [Array.size_append, Array.size_replicate, Buffer.pc]
    omega
  cases asFinally with
  | false =>
      cases pure_eq_ok.1 appended
      refine ⟨length, ⟨padding, whole⟩, bounded, ?_⟩
      show code.handlers <+: cursor.code.handlers ++ moved
      rw [same]
      exact List.prefix_append _ _
  | true =>
      obtain ⟨handlers', guarded, appended⟩ := bind_eq_ok.1 appended
      cases pure_eq_ok.1 appended
      refine ⟨length, ⟨padding, whole⟩, bounded, ?_⟩
      obtain ⟨_, _, finished⟩ := bind_eq_ok.1 guarded
      cases pure_eq_ok.1 finished
      show code.handlers <+: cursor.code.handlers ++ moved ++ _
      rw [same, List.append_assoc]
      exact List.prefix_append _ _

/-- The instructions of a body in front of those of the subroutine at `entry`, with no return between
them. -/
structure Joined (code base : Code) (body old : Listing) (entry : Nat) : Prop where
  decoded : Listing.decode base.bytes = .ok old
  front : body.entries.toList <+: old.entries.toList
  store : (entry, ⟨(storeBytes code.maxLocals.toNat).length,
    .plain (storeBytes code.maxLocals.toNat)⟩) ∈ old.entries
  returns : ∀ {pos : Nat} {located : Located}, located.instruction.IsReturn →
    ((pos, located) ∈ body.entries ↔ (pos, located) ∈ old.entries ∧ pos < entry)

theorem Attached.entry_eq {code base : Code} {handlerLength length padding : Nat} {buffer : Buffer}
    {handler store : List UInt8} (attached : Attached code handlerLength buffer length base)
    (whole : base.bytes = code.bytes ++ Array.replicate padding Opcode.nop ++ buffer.bytes)
    (handlerSize : handler.length = handlerLength) (begins : handler ++ store <+: buffer.bytes.toList) :
    base.bytes.size - length = code.bytes.size + (padding + handler.length) := by
  have room := begins.length_le
  have size : buffer.bytes.toList.length = buffer.bytes.size := Array.length_toList
  rw [List.length_append] at room
  rw [attached.length, whole]
  simp only [Array.size_append, Array.size_replicate, Buffer.pc]
  omega

theorem Attached.joined {code base : Code} {handlerLength length : Nat} {buffer : Buffer}
    {handler : List UInt8} {body old : Listing}
    (attached : Attached code handlerLength buffer length base) (stays : Stays handler)
    (handlerSize : handler.length = handlerLength)
    (begins : handler ++ storeBytes code.maxLocals.toNat <+: buffer.bytes.toList)
    (decodedBody : Listing.decode code.bytes = .ok body)
    (decoded : Listing.decode base.bytes = .ok old) :
    Joined code base body old (base.bytes.size - length) := by
  obtain ⟨padding, whole⟩ := attached.bytes
  rw [attached.entry_eq whole handlerSize begins]
  obtain ⟨rest, begun⟩ := begins
  have split : base.bytes.toList = code.bytes.toList ++ (List.replicate padding Opcode.nop ++
      handler ++ storeBytes code.maxLocals.toNat) ++ rest := by
    rw [whole, Array.toList_append, Array.toList_append, Array.toList_replicate, ← begun]
    simp only [List.append_assoc]
  have held := Holds.of_toList split
  rw [Array.length_toList, Code.holds_append, List.length_append, List.length_replicate] at held
  obtain ⟨middle, between, others⟩ := (stays_nops padding).append stays base.bytes _ held.1
  have store := (accesses_store ValueKind.reference).reads _ held.2
  rw [List.length_append, List.length_replicate] at between
  obtain ⟨inner, ended⟩ := Code.decode_eq_ok.1 decodedBody
  obtain ⟨run, size⟩ := Code.decode_eq_ok.1 decoded
  have front : Runs base.bytes 0 body.entries.toList body.next := by
    rw [whole, Array.append_assoc]
    exact inner.append_right _
  rw [← ended] at between store ⊢
  have inside : body.next + (padding + handler.length) ≤ old.next := by
    rw [size]
    exact Nat.le_trans (Nat.le_add_right _ _) store.le_size
  obtain ⟨back, listed, behind⟩ := run.cancel (front.append between) inside
  rcases behind.inv with ⟨_, absurd⟩ | ⟨located, back, rfl, reads, behind⟩
  · have := store.length_pos
    have := store.le_size
    omega
  cases reads.unique store
  refine ⟨decoded, ?_, ?_, ?_⟩
  · rw [listed, List.append_assoc]
    exact List.prefix_append _ _
  · rw [← Array.mem_toList_iff, listed]
    exact List.mem_append_right _ List.mem_cons_self
  · intro pos located returns
    rw [← Array.mem_toList_iff, ← Array.mem_toList_iff, listed]
    constructor
    · intro member
      have bounds := (front.mem_bounds member).2.2
      have := (front.mem_bounds member).1.length_pos
      exact ⟨List.mem_append_left _ (List.mem_append_left _ member), by omega⟩
    · rintro ⟨member, less⟩
      rcases List.mem_append.1 member with before | after
      · rcases List.mem_append.1 before with inBody | inMiddle
        · exact inBody
        · exact absurd returns (others _ inMiddle)
      · have := ((Runs.step reads behind).mem_bounds after).2.1
        omega

theorem outcome_isConstructor_same {editor editor' : Editor} {index : Nat} {answer : Bool}
    (done : outcome (isConstructor index) editor = (.ok answer, editor')) : editor = editor' := by
  unfold isConstructor at done
  obtain ⟨_, _, step, done⟩ := outcome_bind_eq_ok.1 done
  obtain ⟨_, rfl⟩ := outcome_methodAt_eq_ok.1 step
  obtain ⟨_, _, step, done⟩ := outcome_bind_eq_ok.1 done
  obtain ⟨_, rfl⟩ := outcome_get_eq_ok.1 step
  exact (outcome_pure_eq_ok.1 done).2

theorem exists_decode_of_checkBody {code : Code} {version : Version}
    (sound : checkBody code version = .ok ()) :
    ∃ listing, Listing.decode code.bytes = .ok listing := by
  unfold checkBody at sound
  obtain ⟨listing, decoded, _⟩ := bind_eq_ok.1 sound
  cases found : Listing.decode code.bytes with
  | ok listing => exact ⟨listing, rfl⟩
  | error error =>
      rw [found] at decoded
      cases decoded

theorem exists_scanning_start {base : Code} {old : Listing} (bounded : base.bytes.size ≤ Code.maxLength)
    (decoded : Listing.decode base.bytes = .ok old) :
    ∃ weaving, Scanning old base.handlers weaving (Cursor.start base) ∧ weaving.enter = id := by
  obtain ⟨weaving, woven, enter, _, empty⟩ := Code.exists_woven decoded
  refine ⟨weaving, ⟨woven, bounded, ?_, ⟨old, decoded, Code.isBoundary_zero decoded⟩, ?_, ?_⟩, enter⟩
  · refine List.forall₂_same.2 fun handler _ => ⟨?_, ?_, ?_, rfl⟩
    all_goals
      rw [enter]
      rfl
  · intro pos _
    exact .inl (empty pos)
  · intro pos _ _
    exact empty pos

theorem callBeforeReturns_iff {code base code' : Code} {body old : Listing} {length entry total : Nat}
    (joined : Joined code base body old entry) (bounded : base.bytes.size ≤ Code.maxLength)
    (measured : entry + length = base.bytes.size)
    (done : callBeforeReturns base length = .ok (total, code')) :
    ∃ weaving marks last, Scan length (Cursor.start base) entry marks last ∧ last.code = code' ∧
      total = marks.length ∧ Scanning old base.handlers weaving last ∧
      (CallsReturns body old entry weaving ↔ ∀ mark ∈ marks, KeepsLength length mark) := by
  obtain ⟨initial, scanning, enter⟩ := exists_scanning_start bounded joined.decoded
  have boundary : old.IsBoundary entry := .inr ⟨_, joined.store⟩
  obtain ⟨marks, weaving, last, scan, count, same, stopped, scanned, right, _⟩ :=
    callFrom_scanned joined.decoded boundary scanning done
  rw [enter] at scan
  refine ⟨weaving, marks, last, scan, same, by omega, scanned, ?_⟩
  have start : Right old entry length initial (Cursor.start base) := by
    refine ⟨?_, Nat.zero_le _, fun _ _ before => absurd before (Nat.not_lt_zero _)⟩
    rw [enter]
    exact measured
  rcases right start with ⟨kept, whole⟩ | ⟨⟨mark, member, lost⟩, wrong⟩
  · exact iff_of_true (whole.callsReturns scanned stopped joined.returns joined.store) kept
  · refine iff_of_false (wrong.not_callsReturns scanned.woven joined.returns boundary) fun kept => ?_
    exact lost (kept mark member)

def withEpilogue (context : Context) (isConstructor : Bool) (source : String) (asFinally : Bool)
    (code : Code) : PoolEditM Code := do
  let start ← demandEdit (bodyStart code (← get) isConstructor)
  let (handlerLength, buffer) ← compileAfter assemble source context code asFinally
  let (length, code) ← demand (appendAfter code start handlerLength buffer asFinally)
  let (_, code) ← demand (callBeforeReturns code length)
  return code

theorem outcome_withEpilogue_eq_ok {context : Context} {isConstructor asFinally : Bool}
    {source : String} {code built : Code} {pool pool' : Pool} :
    outcome (withEpilogue context isConstructor source asFinally code) pool = (.ok built, pool') ↔
      ∃ start handlerLength buffer length base calls, bodyStart code pool isConstructor = .ok start ∧
        outcome (compileAfter assemble source context code asFinally) pool =
          (.ok (handlerLength, buffer), pool') ∧
        appendAfter code start handlerLength buffer asFinally = .ok (length, base) ∧
        callBeforeReturns base length = .ok (calls, built) := by
  constructor
  · intro edited
    obtain ⟨_, _, step, edited⟩ := outcome_bind_eq_ok.1 edited
    obtain ⟨rfl, rfl⟩ := outcome_get_eq_ok.1 step
    obtain ⟨start, _, step, edited⟩ := outcome_bind_eq_ok.1 edited
    obtain ⟨started, rfl⟩ := outcome_demandEdit_eq_ok.1 step
    obtain ⟨⟨handlerLength, buffer⟩, _, compiled, edited⟩ := outcome_bind_eq_ok.1 edited
    obtain ⟨⟨length, base⟩, _, step, edited⟩ := outcome_bind_eq_ok.1 edited
    obtain ⟨appended, rfl⟩ := outcome_demand_eq_ok.1 step
    obtain ⟨⟨calls, _⟩, _, step, edited⟩ := outcome_bind_eq_ok.1 edited
    obtain ⟨called, rfl⟩ := outcome_demand_eq_ok.1 step
    obtain ⟨rfl, rfl⟩ := outcome_pure_eq_ok.1 edited
    exact ⟨start, handlerLength, buffer, length, base, calls, started, compiled, appended, called⟩
  · rintro ⟨start, handlerLength, buffer, length, base, calls, started, compiled, appended, called⟩
    refine outcome_bind_eq_ok.2 ⟨_, _, outcome_get_eq_ok.2 ⟨rfl, rfl⟩, ?_⟩
    refine outcome_bind_eq_ok.2 ⟨start, _, outcome_demandEdit_eq_ok.2 ⟨started, rfl⟩, ?_⟩
    refine outcome_bind_eq_ok.2 ⟨(handlerLength, buffer), _, compiled, ?_⟩
    refine outcome_bind_eq_ok.2 ⟨(length, base), _, outcome_demand_eq_ok.2 ⟨appended, rfl⟩, ?_⟩
    exact outcome_bind_eq_ok.2 ⟨(calls, built), _, outcome_demand_eq_ok.2 ⟨called, rfl⟩, rfl⟩

theorem insertAfter_replaced {editor editor' : Editor} {index : Nat} {source : String}
    {asFinally : Bool}
    (done : outcome (insertAfter assemble index source asFinally) editor = (.ok (), editor')) :
    ∃ context isConstructor code built pool,
      outcome (contextAt index) editor = (.ok context, editor) ∧
      outcome (Edit.isConstructor index) editor = (.ok isConstructor, editor) ∧
      outcome (withEpilogue context isConstructor source asFinally code) editor.file.pool =
        (.ok built, pool) ∧
      Replaced editor editor' index code built pool := by
  obtain ⟨context, _, known, done⟩ := outcome_bind_eq_ok.1 done
  obtain rfl := outcome_contextAt_same known
  obtain ⟨isConstructor, _, named, done⟩ := outcome_bind_eq_ok.1 done
  obtain rfl := outcome_isConstructor_same named
  obtain ⟨method, _, step, done⟩ := outcome_bind_eq_ok.1 done
  obtain ⟨_, rfl⟩ := outcome_methodAt_eq_ok.1 step
  obtain ⟨_, _, step, done⟩ := outcome_bind_eq_ok.1 done
  obtain ⟨_, rfl⟩ := outcome_get_eq_ok.1 step
  obtain ⟨_, _, step, done⟩ := outcome_bind_eq_ok.1 done
  obtain ⟨_, rfl⟩ := outcome_require_eq_ok.1 step
  obtain ⟨code, built, pool, edited, replaced⟩ := outcome_patchBody_eq_ok.1 done
  exact ⟨context, isConstructor, code, built, pool, known, named, edited, replaced⟩

/-- A snippet that is inserted behind a body is called in front of the returns of the body, and of
nothing else, exactly if its code has the length it was measured with behind each call. -/
theorem insertAfter_callsReturns {editor editor' : Editor} {index : Nat} {source : String}
    {asFinally : Bool}
    (done : outcome (insertAfter assemble index source asFinally) editor = (.ok (), editor')) :
    ∃ context code code' start handlerLength buffer length base pool,
      outcome (contextAt index) editor = (.ok context, editor) ∧
      outcome (compileAfter assemble source context code asFinally) editor.file.pool =
        (.ok (handlerLength, buffer), pool) ∧
      appendAfter code start handlerLength buffer asFinally = .ok (length, base) ∧
      Attached code handlerLength buffer length base ∧
      Replaced editor editor' index code code' pool ∧
      ∀ body, Listing.decode code.bytes = .ok body → ∃ old weaving marks last,
        Joined code base body old (base.bytes.size - length) ∧
        Scan length (Cursor.start base) (base.bytes.size - length) marks last ∧
        last.code = code' ∧ Scanning old base.handlers weaving last ∧
        (CallsReturns body old (base.bytes.size - length) weaving ↔
          ∀ mark ∈ marks, KeepsLength length mark) := by
  obtain ⟨context, isConstructor, code, code', pool, known, _, edited, replaced⟩ :=
    insertAfter_replaced done
  obtain ⟨start, handlerLength, buffer, length, base, calls, _, compiled, appended, scanned⟩ :=
    outcome_withEpilogue_eq_ok.1 edited
  have attached := appendAfter_attached appended
  refine ⟨context, code, code', start, handlerLength, buffer, length, base, pool, known, compiled,
    appended, attached, replaced, fun body decodedBody => ?_⟩
  obtain ⟨handler, stays, handlerSize, begins⟩ := outcome_compileAfter_begins compiled
  obtain ⟨listing, decodedAfter⟩ := exists_decode_of_checkBody replaced.sound
  obtain ⟨old, decoded⟩ := exists_decode_of_callFrom scanned decodedAfter
  have joined := attached.joined stays handlerSize begins decodedBody decoded
  have measured : base.bytes.size - length + length = base.bytes.size := by
    obtain ⟨padding, whole⟩ := attached.bytes
    have fits := attached.length
    rw [whole]
    simp only [Array.size_append, Array.size_replicate, Buffer.pc] at fits ⊢
    omega
  obtain ⟨weaving, marks, last, scan, same, _, scanning, exactly⟩ :=
    callBeforeReturns_iff joined attached.bounded measured scanned
  exact ⟨old, weaving, marks, last, joined, scan, same, scanning, exactly⟩

theorem isConstructor_smallClass (body : Code) :
    outcome (isConstructor 0) (smallClass body) = (.ok false, smallClass body) := by
  obtain ⟨indices, same⟩ := smallPool_eq
  simp only [smallClass, same]
  cbv

theorem exists_insertAfter_smallClass {body base code' : Code} {source : String} {asFinally : Bool}
    {handlerLength length total : Nat} {buffer : Buffer}
    (read : Code.parse body.write smallPool = .ok body)
    (started : bodyStart body smallPool false = .ok 0)
    (compiled : outcome (compileAfter assemble source ⟨"C", ⟨[], none⟩, true⟩ body asFinally)
      smallPool = (.ok (handlerLength, buffer), smallPool))
    (appended : appendAfter body 0 handlerLength buffer asFinally = .ok (length, base))
    (called : callBeforeReturns base length = .ok (total, code'))
    (sound : checkBody code' ⟨50, 0⟩ = .ok ()) : ∃ editor',
      outcome (insertAfter assemble 0 source asFinally) (smallClass body) = (.ok (), editor') := by
  unfold insertAfter
  refine Exists.imp (fun editor' done => outcome_bind_eq_ok.2 ⟨_, _, contextAt_smallClass _,
    outcome_bind_eq_ok.2 ⟨_, _, isConstructor_smallClass _, outcome_bind_eq_ok.2 ⟨_, _, rfl,
      outcome_bind_eq_ok.2 ⟨_, _, rfl, outcome_bind_eq_ok.2 ⟨"m", _,
        outcome_require_eq_ok.2 ⟨textAt_smallPool.1, rfl⟩, done⟩⟩⟩⟩⟩) (exists_patched read ?_ sound)
  exact outcome_withEpilogue_eq_ok.2
    ⟨0, handlerLength, buffer, length, base, total, started, compiled, appended, called⟩

def nopSubroutine : Buffer :=
  ⟨#[0x4c, 0x01, 0x4d, 0x00, 0xa9, 0x01], 1, 2, 3, []⟩

set_option maxRecDepth 4000 in
theorem compileAfter_nop :
    outcome (compileAfter assemble "nop" ⟨"C", ⟨[], none⟩, true⟩ Cursor.loopBody.code false)
      smallPool = (.ok (0, nopSubroutine), smallPool) := by
  have stored : (⟨#[], 2, 2, 3, []⟩ : Buffer).addStore 1 .reference =
      .ok ⟨#[0x4c], 1, 2, 3, []⟩ := by
    rfl
  have kept : ((⟨#[0x4c], 1, 2, 3, []⟩ : Buffer).addOpcode Opcode.aconstNull).addStore 2 .reference =
      .ok ⟨#[0x4c, 0x01, 0x4d], 1, 2, 3, []⟩ := by
    rfl
  have compiled : (⟨#[0x4c, 0x01, 0x4d], 1, 2, 3, []⟩ : Buffer).addOpcode Opcode.nop =
      ⟨#[0x4c, 0x01, 0x4d, 0x00], 1, 2, 3, []⟩ := by
    rfl
  have returned : (⟨#[0x4c, 0x01, 0x4d, 0x00], 1, 2, 3, []⟩ : Buffer).addRet 1 =
      .ok nopSubroutine := by
    rfl
  have assembled {scope : Assembler.Scope} :
      outcome (assemble "nop" scope ⟨#[0x4c, 0x01, 0x4d], 1, 2, 3, []⟩) smallPool =
        (.ok (scope, ⟨#[0x4c, 0x01, 0x4d, 0x00], 1, 2, 3, []⟩), smallPool) := by
    rw [← compiled]
    apply Assembler.assemble_nop
    decide
  have declared : Assembler.Scope.bindReturn [] ⟨#[], 0, 0, 2, []⟩ none =
      .ok (2, [("$_", ⟨2, Assembler.Scope.noReturn⟩)], ⟨#[], 0, 0, 3, []⟩) := by
    rfl
  unfold compileAfter
  refine outcome_bind_eq_ok.2 ⟨_, _, outcome_demand_eq_ok.2 ⟨declared, rfl⟩, ?_⟩
  refine outcome_bind_eq_ok.2 ⟨_, _, rfl, ?_⟩
  refine outcome_bind_eq_ok.2 ⟨_, _, ?_, rfl⟩
  refine outcome_bind_eq_ok.2 ⟨_, _, outcome_demand_eq_ok.2 ⟨stored, rfl⟩, ?_⟩
  refine outcome_bind_eq_ok.2 ⟨_, _, outcome_demand_eq_ok.2 ⟨kept, rfl⟩, ?_⟩
  refine outcome_bind_eq_ok.2 ⟨_, _, outcome_compileWith_eq_ok.2 ⟨_, assembled⟩, ?_⟩
  exact outcome_demand_eq_ok.2 ⟨returned, rfl⟩

def loopBefore : Code :=
  ⟨2, 3, #[0x1a, 0x99, 0xff, 0xff, 0xb1, 0x4c, 0x01, 0x4d, 0x00, 0xa9, 0x01], [], []⟩

def loopAfter : Code :=
  ⟨2, 3, #[0x1a, 0x99, 0xff, 0xff, 0xa8, 0x00, 0x04, 0xb1, 0x4c, 0x01, 0x4d, 0x00, 0xa9, 0x01],
    [], []⟩

set_option maxRecDepth 4000 in
theorem appendAfter_nop (start : Nat) :
    appendAfter Cursor.loopBody.code start 0 nopSubroutine false = .ok (6, loopBefore) := by
  cbv

set_option maxRecDepth 4000 in
theorem scan_loopBefore :
    Scan 6 (Cursor.start loopBefore) 5 [⟨loopAfter, 8⟩] ⟨loopAfter, 8⟩ := by
  have load : callStep ⟨loopBefore, 0⟩ 6 = .ok (some (⟨loopBefore, 1⟩, 0)) := by cbv
  have branch : callStep ⟨loopBefore, 1⟩ 6 = .ok (some (⟨loopBefore, 4⟩, 0)) := by cbv
  have found : (⟨loopBefore, 4⟩ : Cursor).next = .ok (some (4, ⟨loopBefore, 5⟩)) := by cbv
  have called : callStep ⟨loopBefore, 4⟩ 6 = .ok (some (⟨loopAfter, 8⟩, 1)) := by cbv
  have marked : callBefore ⟨loopBefore, 5⟩ 4 6 = .ok ⟨loopAfter, 8⟩ := by cbv
  have stopped : callStep ⟨loopAfter, 8⟩ 6 = .ok none := by cbv
  exact .skip load (.skip branch (.call found called marked (.stop stopped)))

set_option maxRecDepth 4000 in
theorem insertAfter_callsReturns_loop :
    ∃ editor', outcome (insertAfter assemble 0 "nop" false) (smallClass Cursor.loopBody.code) =
        (.ok (), editor') ∧
      ∃ body old weaving, Listing.decode Cursor.loopBody.code.bytes = .ok body ∧
        Replaced (smallClass Cursor.loopBody.code) editor' 0 Cursor.loopBody.code loopAfter
          smallPool ∧
        Joined Cursor.loopBody.code loopBefore body old 5 ∧ Woven old weaving loopAfter.bytes ∧
        CallsReturns body old 5 weaving := by
  have edited : ∃ editor', outcome (insertAfter assemble 0 "nop" false)
      (smallClass Cursor.loopBody.code) = (.ok (), editor') := by
    have called : callBeforeReturns loopBefore 6 = .ok (1, loopAfter) := by cbv
    have sound : checkBody loopAfter ⟨50, 0⟩ = .ok () := by cbv
    exact exists_insertAfter_smallClass rfl rfl compileAfter_nop (appendAfter_nop 0) called sound
  have listing : Listing.decode Cursor.loopBody.code.bytes = .ok ⟨#[(0, ⟨1, .plain [0x1a]⟩),
      (1, ⟨3, .branch 0x99 0⟩), (4, ⟨1, .plain [0xb1]⟩)], 5⟩ := by
    cbv
  obtain ⟨editor', done⟩ := edited
  obtain ⟨context, code, code', start, handlerLength, buffer, length, base, pool, known, compiled,
    appended, _, replaced, calls⟩ := insertAfter_callsReturns done
  cases known.symm.trans (contextAt_smallClass _)
  obtain rfl := replaced_smallClass rfl replaced
  cases compiled.symm.trans compileAfter_nop
  cases appended.symm.trans (appendAfter_nop start)
  obtain ⟨old, weaving, marks, last, joined, scan, rfl, scanning, exactly⟩ := calls _ listing
  obtain ⟨rfl, rfl⟩ := scan.unique scan_loopBefore
  have kept : ∀ mark ∈ [(⟨loopAfter, 8⟩ : Cursor)], KeepsLength 6 mark := by
    intro mark member
    cases List.mem_singleton.1 member
    rfl
  exact ⟨editor', done, _, old, weaving, listing, replaced, joined, scanning.woven, exactly.2 kept⟩

set_option maxRecDepth 4000 in
-- Behind the call the switch of the subroutine takes a byte more. The call leads to 5, and the
-- subroutine begins at 4.
example :
    callBeforeReturns
        ⟨1, 3, #[0xac, 0x4d, 0xab, 0, 0, 0, 0, 0x0a, 0, 0, 0, 0, 0xa9, 2], [], []⟩ 13 =
      .ok (1, ⟨1, 3, #[0xa8, 0, 5, 0xac, 0x4d, 0xab, 0, 0, 0, 0, 0, 0x0b, 0, 0, 0, 0, 0xa9, 2],
        [], []⟩) := by
  cbv

end ClassSplice.Edit
