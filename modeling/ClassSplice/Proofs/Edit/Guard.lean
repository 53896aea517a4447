import ClassSplice.Proofs.Code.Dispatch
import ClassSplice.Proofs.Edit.Stored

namespace ClassSplice

open Code (Buffer Cursor Handler HandlerTable Listing Located Opcode Weaving Woven)

theorem exists_append_of_forall₂ {α β : Type} {related : α → β → Prop} {front back : List α}
    {whole : List β} (each : List.Forall₂ related (front ++ back) whole) :
    ∃ front' back', whole = front' ++ back' ∧ List.Forall₂ related front front' ∧
      List.Forall₂ related back back' := by
  induction front generalizing whole with
  | nil => exact ⟨[], whole, rfl, .nil, each⟩
  | cons first front ih =>
      obtain ⟨first', rest, one, others, rfl⟩ := List.forall₂_cons_left_iff.1 each
      obtain ⟨front', back', rfl, before, behind⟩ := ih others
      exact ⟨first' :: front', back', rfl, .cons one before, behind⟩

theorem Code.entries_append {code rest : Array UInt8} {body old : Listing}
    (decodedBody : Listing.decode code = .ok body) (decoded : Listing.decode (code ++ rest) = .ok old) :
    body.entries.toList <+: old.entries.toList := by
  obtain ⟨inner, ended⟩ := Code.decode_eq_ok.1 decodedBody
  obtain ⟨run, size⟩ := Code.decode_eq_ok.1 decoded
  have inside : body.next ≤ old.next := by
    rw [ended, size, Array.size_append]
    exact Nat.le_add_right _ _
  obtain ⟨back, listed, _⟩ := run.cancel (inner.append_right rest) inside
  rw [listed]
  exact List.prefix_append _ _

theorem Code.Handler.Fits.liesOn {listing : Listing} {handler : Handler} (fits : handler.Fits listing) :
    handler.LiesOn listing :=
  ⟨fits.start, fits.stop.1, fits.target.1⟩

namespace Edit

/-- A body with the code of a buffer behind it, at `block`, to which exceptions go that the body throws
from `start` on and does not handle. The handlers of that code are `own`. -/
structure Guarded (code : Code) (buffer : Buffer) (start : Nat) (catchType : Pool.Index)
    (block : Nat) (own : HandlerTable) (base : Code) : Prop where
  bytes : ∃ padding, block = code.bytes.size + padding ∧
    base.bytes = code.bytes ++ Array.replicate padding Opcode.nop ++ buffer.bytes
  shifted : buffer.handlers.shifted block = .ok own
  handlers : ∃ guard stop, Handler.Spans guard start stop block ∧ guard.catchType = catchType ∧
    code.bytes.size ≤ stop ∧ stop ≤ block ∧
    (base.handlers = code.handlers ++ own ++ [guard] ∨
      base.handlers = code.handlers ++ [guard] ++ own)

section Guarded

variable {code base : Code} {buffer : Buffer} {start block pos : Nat} {catchType : Pool.Index}
  {own table : HandlerTable} {catches : Pool.Index → Bool}

theorem Guarded.size_le (guarded : Guarded code buffer start catchType block own base) :
    code.bytes.size ≤ block := by
  obtain ⟨padding, rfl, _⟩ := guarded.bytes
  exact Nat.le_add_right _ _

theorem le_start_of_shifted {fragment : HandlerTable} (shifted : fragment.shifted block = .ok own)
    {handler : Handler} (member : handler ∈ own) : block ≤ handler.start.toNat := by
  obtain ⟨before, _, moved⟩ :=
    forall₂_mem_right (Code.HandlerTable.relocate_eq_ok.1 shifted) member
  obtain ⟨_, _, _, first, _, _, spans, _⟩ := Handler.relocate_eq_ok.1 moved
  obtain ⟨_, rfl⟩ := Code.checkedSum_eq_ok.1 first
  rw [spans.start]
  exact Nat.le_add_left _ _

theorem Guarded.dispatch_body (guarded : Guarded code buffer start catchType block own base)
    (inside : pos < code.bytes.size) :
    base.handlers.dispatch catches pos = (code.handlers.dispatch catches pos).or
      (if start ≤ pos ∧ catches catchType = true then some block else none) := by
  obtain ⟨guard, stop, spans, rfl, reached, _, order⟩ := guarded.handlers
  have above := guarded.size_le
  have apart : own.dispatch catches pos = none := by
    apply Code.HandlerTable.dispatch_eq_none
    intro handler member
    have := le_start_of_shifted guarded.shifted member
    simp only [Handler.covers, Bool.and_eq_false_iff, decide_eq_false_iff_not]
    omega
  have around : HandlerTable.dispatch [guard] catches pos =
      if start ≤ pos ∧ catches guard.catchType = true then some block else none := by
    rw [Code.HandlerTable.dispatch_singleton, spans.target]
    have within : guard.covers pos = true ↔ start ≤ pos := by
      simp only [Handler.covers, spans.start, spans.stop, Bool.and_eq_true, decide_eq_true_eq]
      omega
    simp only [within]
  rcases order with listed | listed
  · rw [listed, Code.HandlerTable.dispatch_append, Code.HandlerTable.dispatch_append, apart, around,
      Option.or_none]
  · rw [listed, Code.HandlerTable.dispatch_append, Code.HandlerTable.dispatch_append, apart, around,
      Option.or_none]

theorem Handler.Carried.covers_eq_false {old : Listing} {weaving : Weaving} {bytes : Array UInt8}
    {before after : Handler} {offset : Nat} (woven : Woven old weaving bytes)
    (carried : Handler.Carried weaving before after) (lies : before.LiesOn old)
    (boundary : old.IsBoundary block) (ended : before.stop.toNat ≤ block)
    (beyond : weaving.enter block ≤ offset) : after.covers offset = false := by
  have := woven.enter_le lies.stop boundary ended
  simp only [Handler.covers, carried.stop, Bool.and_eq_false_iff, decide_eq_false_iff_not]
  omega

theorem Guarded.dispatch_block {old : Listing} {weaving : Weaving} {bytes : Array UInt8}
    (guarded : Guarded code buffer start catchType block own base)
    (ended : ∀ handler ∈ code.handlers, handler.stop.toNat ≤ code.bytes.size)
    (woven : Woven old weaving bytes) (lies : ∀ handler ∈ base.handlers, handler.LiesOn old)
    (carried : List.Forall₂ (Handler.Carried weaving) base.handlers table) :
    ∃ own' : HandlerTable, List.Forall₂ (Handler.Carried weaving) own own' ∧
      ∀ {catches : Pool.Index → Bool} {offset : Nat}, weaving.enter block ≤ offset →
        table.dispatch catches offset = own'.dispatch catches offset := by
  obtain ⟨guard, stop, spans, _, _, within, order⟩ := guarded.handlers
  have listed {handler : Handler} (member : handler ∈ code.handlers ∨ handler = guard) :
      handler ∈ base.handlers := by
    rcases order with same | same
    · rw [same]
      simp only [List.mem_append, List.mem_singleton]
      exact member.imp .inl id
    · rw [same]
      simp only [List.mem_append, List.mem_singleton]
      exact .inl member
  have boundary : old.IsBoundary block := by
    rw [← spans.target]
    exact (lies guard (listed (.inr rfl))).target
  have stops {handler : Handler} (member : handler ∈ code.handlers ∨ handler = guard) :
      handler.stop.toNat ≤ block := by
    rcases member with known | rfl
    · exact Nat.le_trans (ended handler known) guarded.size_le
    · rw [spans.stop]
      exact within
  have apart {befores afters : HandlerTable} (each : List.Forall₂ (Handler.Carried weaving) befores afters)
      (known : ∀ handler ∈ befores, handler ∈ code.handlers ∨ handler = guard)
      {catches : Pool.Index → Bool} {offset : Nat} (beyond : weaving.enter block ≤ offset) :
      afters.dispatch catches offset = none := by
    apply Code.HandlerTable.dispatch_eq_none
    intro handler member
    obtain ⟨before, member, moved⟩ := forall₂_mem_right each member
    have member := known before member
    exact Handler.Carried.covers_eq_false woven moved (lies before (listed member)) boundary
      (stops member) beyond
  rcases order with same | same
  · rw [same] at carried
    obtain ⟨_, around, rfl, carried, last⟩ := exists_append_of_forall₂ carried
    obtain ⟨front, own', rfl, first, middle⟩ := exists_append_of_forall₂ carried
    refine ⟨own', middle, fun beyond => ?_⟩
    rw [Code.HandlerTable.dispatch_append, Code.HandlerTable.dispatch_append,
      apart first (fun _ => .inl) beyond, apart last (fun _ known => .inr (List.mem_singleton.1 known))
        beyond, Option.none_or, Option.or_none]
  · rw [same] at carried
    obtain ⟨_, own', rfl, carried, last⟩ := exists_append_of_forall₂ carried
    refine ⟨own', last, fun beyond => ?_⟩
    rw [Code.HandlerTable.dispatch_append, apart carried (fun handler member => ?_) beyond,
      Option.none_or]
    rwa [List.mem_append, List.mem_singleton] at member

end Guarded

theorem shifted_of_append {table fragment result : HandlerTable} {offset : Nat}
    (done : table.append fragment offset = .ok result) :
    ∃ own, fragment.shifted offset = .ok own ∧ result = table ++ own := by
  obtain ⟨own, shifted, done⟩ := bind_eq_ok.1 done
  exact ⟨own, shifted, (pure_eq_ok.1 done).symm⟩

theorem spans_of_add {table result : HandlerTable} {start stop target : Nat}
    {catchType : Pool.Index} (done : table.add start stop target catchType = .ok result) :
    ∃ guard : Handler, guard.Spans start stop target ∧ guard.catchType = catchType ∧
      result = table ++ [guard] := by
  obtain ⟨guard, made, done⟩ := bind_eq_ok.1 done
  obtain ⟨spans, caught⟩ := Handler.make_eq_ok.1 made
  exact ⟨guard, spans, caught, (pure_eq_ok.1 done).symm⟩

theorem appendAfter_guarded {code base : Code} {start handlerLength length : Nat} {buffer : Buffer}
    (appended : appendAfter code start handlerLength buffer true = .ok (length, base)) :
    ∃ block own, Guarded code buffer start 0 block own base := by
  unfold appendAfter at appended
  obtain ⟨raised, step, appended⟩ := bind_eq_ok.1 appended
  obtain ⟨_, _, bytes, handlers⟩ := raiseLimits_eq_ok step
  obtain ⟨⟨block, cursor⟩, step, appended⟩ := bind_eq_ok.1 appended
  obtain ⟨padding, placed, whole, _, same⟩ := append_eq_ok step
  obtain ⟨_, step, appended⟩ := bind_eq_ok.1 appended
  obtain ⟨_, added, finished⟩ := bind_eq_ok.1 step
  cases pure_eq_ok.1 finished
  obtain ⟨own, shifted, rfl⟩ := shifted_of_append added
  obtain ⟨_, added, appended⟩ := bind_eq_ok.1 appended
  cases pure_eq_ok.1 appended
  obtain ⟨guard, spans, caught, rfl⟩ := spans_of_add added
  change block = raised.bytes.size + padding at placed
  change cursor.code.bytes = raised.bytes ++ _ ++ _ at whole
  change cursor.code.handlers = raised.handlers at same
  rw [bytes] at placed whole
  rw [handlers] at same
  refine ⟨block, own, ⟨padding, placed, whole⟩, shifted, guard, block, spans, caught, ?_,
    Nat.le_refl _, .inl ?_⟩
  · rw [placed]
    exact Nat.le_add_right _ _
  · show cursor.code.handlers ++ own ++ [guard] = _
    rw [same]

theorem appends_compileCatch (context : Context) (code : Code) (source caught name : String) :
    Pool.Appends (compileCatch context code source caught name) :=
  (appends_demand _).bind fun _ => (appends_demand _).bind fun _ =>
    appends_compileWith adds_assemble _ _ _

theorem withCatch_guarded {context : Context} {isConstructor : Bool}
    {source caught name : String} {code built : Code} {pool pool' : Pool}
    (made : outcome (withCatch context isConstructor source caught name code) pool =
      (.ok built, pool')) :
    ∃ start buffer middle catchType block own, bodyStart code pool isConstructor = .ok start ∧
      outcome (compileCatch context code source caught name) pool = (.ok buffer, middle) ∧
      outcome (Pool.internClass caught) middle = (.ok catchType, pool') ∧
      Guarded code buffer start catchType block own built := by
  obtain ⟨start, buffer, middle, raised, catchType, block, cursor, table, handlers, started, compiled,
    limited, interned, appended, guarding, added, rfl⟩ := outcome_withCatch_eq_ok.1 made
  obtain ⟨_, _, bytes, same⟩ := raiseLimits_eq_ok limited
  obtain ⟨padding, placed, whole, _, _⟩ := append_eq_ok appended
  obtain ⟨guard, spans, caught, rfl⟩ := spans_of_add guarding
  obtain ⟨own, shifted, rfl⟩ := shifted_of_append added
  change block = raised.bytes.size + padding at placed
  change cursor.code.bytes = raised.bytes ++ _ ++ _ at whole
  rw [bytes] at placed whole spans
  refine ⟨start, buffer, middle, catchType, block, own, started, compiled, interned,
    ⟨padding, placed, whole⟩, shifted, guard, code.bytes.size, spans, caught, Nat.le_refl _, ?_,
    .inr ?_⟩
  · rw [placed]
    exact Nat.le_add_right _ _
  · show raised.handlers ++ [guard] ++ own = _
    rw [same]

/-- Exceptions that the body throws go where they went, or else to the code at `block`, if they are
thrown from `start` on. In that code they go nowhere but to its own handlers. -/
structure Redirected (code code' : Code) (body : Listing) (weaving : Weaving) (start : Nat)
    (catchType : Pool.Index) (block : Nat) (own : HandlerTable) : Prop where
  body : ∀ {catches : Pool.Index → Bool} {pos offset : Nat} {located : Located},
    (pos, located) ∈ body.entries → weaving.Spans pos located offset →
      code'.handlers.dispatch catches offset =
        ((code.handlers.dispatch catches pos).map weaving.enter).or
          (if start ≤ pos ∧ catches catchType = true then some (weaving.enter block) else none)
  block : ∀ {catches : Pool.Index → Bool} {offset : Nat}, weaving.enter block ≤ offset →
    code'.handlers.dispatch catches offset = own.dispatch catches offset

theorem Guarded.redirected {code base code' : Code} {buffer : Buffer} {start block : Nat}
    {catchType : Pool.Index} {own : HandlerTable} {body old : Listing} {weaving : Weaving}
    (guarded : Guarded code buffer start catchType block own base)
    (decodedBody : Listing.decode code.bytes = .ok body)
    (fits : ∀ handler ∈ code.handlers, handler.Fits body)
    (decoded : Listing.decode base.bytes = .ok old) (woven : Woven old weaving code'.bytes)
    (lies : ∀ handler ∈ base.handlers, handler.LiesOn old)
    (carried : List.Forall₂ (Handler.Carried weaving) base.handlers code'.handlers) :
    body.entries.toList <+: old.entries.toList ∧
      ∃ own', List.Forall₂ (Handler.Carried weaving) own own' ∧
        Redirected code code' body weaving start catchType block own' := by
  obtain ⟨padding, _, whole⟩ := guarded.bytes
  obtain ⟨_, size⟩ := Code.decode_eq_ok.1 decodedBody
  have front : body.entries.toList <+: old.entries.toList := by
    rw [whole, Array.append_assoc] at decoded
    exact Code.entries_append decodedBody decoded
  obtain ⟨own', moved, behind⟩ := guarded.dispatch_block (fun handler member => by
    rw [← size]
    exact (fits handler member).stop.2) woven lies carried
  refine ⟨front, own', moved, ?_, behind⟩
  intro catches pos offset located member spans
  have inside : pos < code.bytes.size := by
    rw [← size]
    exact Code.lt_next_of_mem decodedBody member
  have known : (pos, located) ∈ old.entries :=
    Array.mem_toList_iff.1 (front.subset (Array.mem_toList_iff.2 member))
  rw [woven.dispatch decoded carried lies known spans, guarded.dispatch_body inside, Option.map_or]
  congr 1
  split <;> rfl

theorem exists_woven_of_callBeforeReturns {base code' : Code} {length total : Nat}
    {version : Version} (bounded : base.bytes.size ≤ Code.maxLength)
    (done : callBeforeReturns base length = .ok (total, code'))
    (sound : checkBody code' version = .ok ()) :
    ∃ old weaving, Listing.decode base.bytes = .ok old ∧ Woven old weaving code'.bytes ∧
      (∀ handler ∈ base.handlers, handler.LiesOn old) ∧
      List.Forall₂ (Handler.Carried weaving) base.handlers code'.handlers := by
  obtain ⟨listing, decodedAfter, _, fits⟩ := checkBody_sound sound
  obtain ⟨old, decoded⟩ := exists_decode_of_callFrom done decodedAfter
  obtain ⟨initial, scanning, _⟩ := exists_scanning_start bounded decoded
  obtain ⟨marks, weaving, last, _, _, rfl, _, scanned, _⟩ :=
    callFrom_scanned decoded (Code.isBoundary_zero decoded) scanning done
  refine ⟨old, weaving, decoded, scanned.woven, ?_, scanned.handlers⟩
  intro handler member
  rcases callFrom_opens done with same | ⟨_, _, now, _, opened⟩
  · rw [same] at decodedAfter fits
    cases decodedAfter.symm.trans decoded
    exact (fits handler member).liesOn
  · cases opened.decoded.symm.trans decoded
    obtain ⟨after, _, moves⟩ := forall₂_mem_right opened.handlers.flip member
    exact ⟨moves.boundaries.1, moves.boundaries.2.1, moves.boundaries.2.2⟩

theorem exists_woven_self {base : Code} {version : Version} (sound : checkBody base version = .ok ()) :
    ∃ old weaving, Listing.decode base.bytes = .ok old ∧ Woven old weaving base.bytes ∧
      (∀ handler ∈ base.handlers, handler.LiesOn old) ∧
      List.Forall₂ (Handler.Carried weaving) base.handlers base.handlers := by
  obtain ⟨old, decoded, _, fits⟩ := checkBody_sound sound
  obtain ⟨weaving, woven, enter, _⟩ := Code.exists_woven decoded
  refine ⟨old, weaving, decoded, woven, fun handler member => (fits handler member).liesOn, ?_⟩
  refine List.forall₂_same.2 fun handler _ => ⟨?_, ?_, ?_, rfl⟩
  all_goals
    rw [enter]
    rfl

def Change.Guards : Change → Prop
  | after _ asFinally => asFinally = true
  | catching _ _ _ => True
  | _ => False

/-- The code that a change puts behind a body is in the buffer, and handles this class: all of them,
or the one that is named. -/
def Change.Handles (editor : Editor) (context : Context) (code : Code) (buffer : Buffer)
    (catchType : Pool.Index) (pool : Pool) : Change → Prop
  | after source _ => catchType = 0 ∧ ∃ handlerLength,
      outcome (compileAfter assemble source context code true) editor.file.pool =
        (.ok (handlerLength, buffer), pool)
  | catching source exceptionType name => ∃ caught middle, classNameOf exceptionType = .ok caught ∧
      outcome (compileCatch context code source caught name) editor.file.pool = (.ok buffer, middle) ∧
      outcome (Pool.internClass caught) middle = (.ok catchType, pool) ∧
      (editor.file.pool.Sound → pool.classNameAt catchType = .ok caught)
  | _ => False

/-- Handlers of the body come first, in their order, and what handles the exceptions they leave does not
protect itself. -/
theorem run_redirected {editor editor' : Editor} {index : Nat} {change : Change}
    (guards : change.Guards) (done : outcome (change.run index) editor = (.ok (), editor')) :
    ∃ context isConstructor code code' pool start buffer catchType,
      outcome (contextAt index) editor = (.ok context, editor) ∧
      outcome (Edit.isConstructor index) editor = (.ok isConstructor, editor) ∧
      Replaced editor editor' index code code' pool ∧
      bodyStart code editor.file.pool isConstructor = .ok start ∧
      change.Handles editor context code buffer catchType pool ∧
      ∀ body, Listing.decode code.bytes = .ok body → (∀ handler ∈ code.handlers, handler.Fits body) →
        ∃ base old weaving block own own', Guarded code buffer start catchType block own base ∧
          Listing.decode base.bytes = .ok old ∧ Woven old weaving code'.bytes ∧
          body.entries.toList <+: old.entries.toList ∧
          List.Forall₂ (Handler.Carried weaving) own own' ∧
          Redirected code code' body weaving start catchType block own' := by
  cases change with
  | before source => exact guards.elim
  | anew source => exact guards.elim
  | after source asFinally =>
      cases guards
      obtain ⟨context, isConstructor, code, code', pool, known, answered, edited, replaced⟩ :=
        insertAfter_replaced done
      obtain ⟨start, handlerLength, buffer, length, base, calls, started, compiled, appended,
        scanned⟩ := outcome_withEpilogue_eq_ok.1 edited
      obtain ⟨block, own, guarded⟩ := appendAfter_guarded appended
      refine ⟨context, isConstructor, code, code', pool, start, buffer, 0, known, answered, replaced,
        started, ⟨rfl, handlerLength, compiled⟩, fun body decodedBody fits => ?_⟩
      obtain ⟨old, weaving, decoded, woven, lies, carried⟩ := exists_woven_of_callBeforeReturns
        (appendAfter_attached appended).bounded scanned replaced.sound
      obtain ⟨front, own', moved, redirected⟩ :=
        guarded.redirected decodedBody fits decoded woven lies carried
      exact ⟨base, old, weaving, block, own, own', guarded, decoded, woven, front, moved, redirected⟩
  | catching source exceptionType name =>
      obtain ⟨context, isConstructor, caught, code, code', pool, known, answered, named, edited,
        replaced⟩ := addCatch_replaced done
      obtain ⟨start, buffer, middle, catchType, block, own, started, compiled, interned, guarded⟩ :=
        withCatch_guarded edited
      have extended := (appends_compileCatch context code source caught name).extended compiled
      refine ⟨context, isConstructor, code, code', pool, start, buffer, catchType, known, answered,
        replaced, started, ⟨caught, middle, named, compiled, interned, fun sound =>
          Pool.classNameAt_of_internClass (extended.sound sound) interned⟩, fun body decodedBody fits => ?_⟩
      obtain ⟨old, weaving, decoded, woven, lies, carried⟩ := exists_woven_self replaced.sound
      obtain ⟨front, own', moved, redirected⟩ :=
        guarded.redirected decodedBody fits decoded woven lies carried
      exact ⟨code', old, weaving, block, own, own', guarded, decoded, woven, front, moved, redirected⟩

def handledLoop : Code :=
  ⟨1, 1, #[0x1a, 0x99, 0xff, 0xff, 0xb1], [⟨0, 1, 4, 0⟩], []⟩

def nopFinally : Buffer :=
  ⟨#[0x4e, 0xa8, 0x00, 0x05, 0x2d, 0xbf, 0x4c, 0x01, 0x4d, 0x00, 0xa9, 0x01], 1, 2, 4, []⟩

set_option maxRecDepth 4000 in
theorem compileAfter_finally :
    outcome (compileAfter assemble "nop" ⟨"C", ⟨[], none⟩, true⟩ handledLoop true) smallPool =
      (.ok (6, nopFinally), smallPool) := by
  have handler : addFinallyHandler ⟨#[], 0, 0, 3, []⟩ none =
      .ok ⟨#[0x4e, 0xa8, 0x00, 0x05, 0x2d, 0xbf], 0, 1, 4, []⟩ := by
    rfl
  have stored : (⟨#[0x4e, 0xa8, 0x00, 0x05, 0x2d, 0xbf], 2, 2, 4, []⟩ : Buffer).addStore 1 .reference =
      .ok ⟨#[0x4e, 0xa8, 0x00, 0x05, 0x2d, 0xbf, 0x4c], 1, 2, 4, []⟩ := by
    rfl
  have kept : ((⟨#[0x4e, 0xa8, 0x00, 0x05, 0x2d, 0xbf, 0x4c], 1, 2, 4, []⟩ : Buffer).addOpcode
      Opcode.aconstNull).addStore 2 .reference =
        .ok ⟨#[0x4e, 0xa8, 0x00, 0x05, 0x2d, 0xbf, 0x4c, 0x01, 0x4d], 1, 2, 4, []⟩ := by
    rfl
  have returned : ((⟨#[0x4e, 0xa8, 0x00, 0x05, 0x2d, 0xbf, 0x4c, 0x01, 0x4d], 1, 2, 4, []⟩ :
      Buffer).addOpcode Opcode.nop).addRet 1 = .ok nopFinally := by
    rfl
  have declared : Assembler.Scope.bindReturn [] ⟨#[], 0, 0, 2, []⟩ none =
      .ok (2, [("$_", ⟨2, Assembler.Scope.noReturn⟩)], ⟨#[], 0, 0, 3, []⟩) := by
    rfl
  unfold compileAfter
  refine outcome_bind_eq_ok.2 ⟨_, _, outcome_demand_eq_ok.2 ⟨declared, rfl⟩, ?_⟩
  refine outcome_bind_eq_ok.2 ⟨_, _, outcome_demand_eq_ok.2 ⟨handler, rfl⟩, ?_⟩
  refine outcome_bind_eq_ok.2 ⟨_, _, ?_, rfl⟩
  refine outcome_bind_eq_ok.2 ⟨_, _, outcome_demand_eq_ok.2 ⟨stored, rfl⟩, ?_⟩
  refine outcome_bind_eq_ok.2 ⟨_, _, outcome_demand_eq_ok.2 ⟨kept, rfl⟩, ?_⟩
  refine outcome_bind_eq_ok.2 ⟨_, _, outcome_compileWith_eq_ok.2 ⟨_, Assembler.assemble_nop ?_⟩, ?_⟩
  · show (0 : Int) ≤ 1
    decide
  · exact outcome_demand_eq_ok.2 ⟨returned, rfl⟩

def finallyBefore : Code :=
  ⟨2, 4, #[0x1a, 0x99, 0xff, 0xff, 0xb1, 0x4e, 0xa8, 0x00, 0x05, 0x2d, 0xbf, 0x4c, 0x01, 0x4d, 0x00,
    0xa9, 0x01], [⟨0, 1, 4, 0⟩, ⟨0, 5, 5, 0⟩], []⟩

def finallyAfter : Code :=
  ⟨2, 4, #[0x1a, 0x99, 0xff, 0xff, 0xa8, 0x00, 0x0a, 0xb1, 0x4e, 0xa8, 0x00, 0x05, 0x2d, 0xbf, 0x4c,
    0x01, 0x4d, 0x00, 0xa9, 0x01], [⟨0, 1, 4, 0⟩, ⟨0, 8, 8, 0⟩], []⟩

set_option maxRecDepth 4000 in
theorem exists_insertAfter_handledLoop : ∃ editor',
    outcome (insertAfter assemble 0 "nop" true) (smallClass handledLoop) = (.ok (), editor') := by
  have appended : appendAfter handledLoop 0 6 nopFinally true = .ok (6, finallyBefore) := by cbv
  have called : callBeforeReturns finallyBefore 6 = .ok (1, finallyAfter) := by cbv
  exact exists_insertAfter_smallClass rfl rfl compileAfter_finally appended called (by cbv)

set_option maxRecDepth 4000 in
theorem run_redirected_loop :
    ∃ editor' code' pool weaving block,
      outcome ((Change.after "nop" true).run 0) (smallClass handledLoop) = (.ok (), editor') ∧
      Replaced (smallClass handledLoop) editor' 0 handledLoop code' pool ∧
      (∀ offset, Weaving.Spans weaving 0 ⟨1, .plain [0x1a]⟩ offset →
        code'.handlers.dispatch (fun _ => true) offset = some (weaving.enter 4)) ∧
      ∀ offset, Weaving.Spans weaving 1 ⟨3, .branch 0x99 0⟩ offset →
        code'.handlers.dispatch (fun _ => true) offset = some (weaving.enter block) := by
  have listing : Listing.decode handledLoop.bytes = .ok ⟨#[(0, ⟨1, .plain [0x1a]⟩),
      (1, ⟨3, .branch 0x99 0⟩), (4, ⟨1, .plain [0xb1]⟩)], 5⟩ := by
    cbv
  obtain ⟨editor', done⟩ := exists_insertAfter_handledLoop
  have done : outcome ((Change.after "nop" true).run 0) (smallClass handledLoop) = (.ok (), editor') :=
    done
  obtain ⟨context, isConstructor, code, code', pool, start, buffer, catchType, _, answered, replaced,
    started, ⟨rfl, _⟩, redirects⟩ := run_redirected (show (Change.after "nop" true).Guards from rfl) done
  cases answered.symm.trans (isConstructor_smallClass _)
  cases started
  obtain rfl := replaced_smallClass rfl replaced
  have fits : ∀ handler ∈ handledLoop.handlers, handler.Fits ⟨#[(0, ⟨1, .plain [0x1a]⟩),
      (1, ⟨3, .branch 0x99 0⟩), (4, ⟨1, .plain [0xb1]⟩)], 5⟩ := by
    intro handler member
    cases List.mem_singleton.1 member
    exact ⟨by decide, .inr ⟨⟨1, .plain [0x1a]⟩, by simp⟩,
      ⟨.inr ⟨⟨3, .branch 0x99 0⟩, by simp⟩, by decide⟩, ⟨.inr ⟨⟨1, .plain [0xb1]⟩, by simp⟩, by decide⟩⟩
  obtain ⟨base, old, weaving, block, own, own', _, _, _, _, _, redirected⟩ := redirects _ listing fits
  refine ⟨editor', code', pool, weaving, block, done, replaced, ?_, ?_⟩
  · intro offset spans
    rw [redirected.body (by simp) spans]
    rfl
  · intro offset spans
    rw [redirected.body (by simp) spans]
    rfl

end Edit
end ClassSplice
