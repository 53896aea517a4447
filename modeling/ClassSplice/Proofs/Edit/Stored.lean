import ClassSplice.Proofs.ClassFile.Transcript
import ClassSplice.Proofs.Code.Codec
import ClassSplice.Proofs.Edit.Change
import ClassSplice.Proofs.Edit.Sound

namespace ClassSplice

open Pool (Appends)

namespace Attribute

inductive Put (selected : Attribute → Bool) (new : Attribute) : List Attribute → List Attribute → Prop
  | replaced {front back : List Attribute} {old : Attribute}
      (skipped : ∀ attr ∈ front, selected attr = false) (first : selected old = true) :
      Put selected new (front ++ old :: back) (front ++ new :: back)
  | added {attributes : List Attribute} (missing : ∀ attr ∈ attributes, selected attr = false) :
      Put selected new attributes (attributes ++ [new])

variable {selected : Attribute → Bool} {new : Attribute} {attributes attributes' : List Attribute}

theorem put_findIdx? (selected : Attribute → Bool) (new : Attribute) (attributes : List Attribute) :
    Put selected new attributes (match attributes.findIdx? selected with
      | some position => attributes.set position new
      | none => attributes ++ [new]) := by
  split
  · rename_i position found
    obtain ⟨inRange, first, before⟩ := List.findIdx?_eq_some_iff_getElem.1 found
    have skipped : ∀ attr ∈ attributes.take position, selected attr = false := by
      intro attr member
      obtain ⟨i, less, rfl⟩ := List.mem_take_iff_getElem.1 member
      exact Bool.eq_false_iff.2 (before i (by omega))
    have parts : attributes.take position ++ attributes[position] :: attributes.drop (position + 1) =
        attributes := by
      rw [← List.drop_eq_getElem_cons inRange, List.take_append_drop]
    have put : Put selected new _ (attributes.take position ++ new :: attributes.drop (position + 1)) :=
      .replaced skipped first
    rw [List.set_eq_take_append_cons_drop, if_pos inRange]
    rwa [parts] at put
  · rename_i missing
    exact .added (List.findIdx?_eq_none_iff.1 missing)

theorem Put.find? (put : Put selected new attributes attributes') (named : selected new = true) :
    attributes'.find? selected = some new := by
  have behind {front back : List Attribute} (skipped : ∀ attr ∈ front, selected attr = false) :
      (front ++ new :: back).find? selected = some new := by
    have none := List.find?_eq_none.2 fun attr member => Bool.eq_false_iff.1 (skipped attr member)
    rw [List.find?_append, none, List.find?_cons, named]
    rfl
  cases put with
  | replaced skipped _ => exact behind skipped
  | added missing => exact behind missing

end Attribute

namespace Code

variable {pool pool' : Pool} {code : Code}

theorem forall₂_changeOnto {α : Type} (change : α → α × Option Error) (changed items : List α) :
    ∃ items', (changeOnto change changed items).1 = changed.reverse ++ items' ∧
      List.Forall₂ (fun old new => new = old ∨ new = (change old).1) items items' := by
  induction items generalizing changed with
  | nil => exact ⟨[], (List.append_nil _).symm, .nil⟩
  | cons item items ih =>
      rw [changeOnto]
      rcases made : change item with ⟨item', error | error⟩
      · obtain ⟨items', same, each⟩ := ih (item' :: changed)
        refine ⟨item' :: items', ?_, .cons (.inr (by rw [made])) each⟩
        show (changeOnto change (item' :: changed) items).1 = _
        rw [same, List.reverse_cons, List.append_assoc, List.singleton_append]
      · exact ⟨item' :: items, List.reverseAux_eq,
          .cons (.inr (by rw [made])) (List.forall₂_same.2 fun _ _ => .inl rfl)⟩

theorem forall₂_changeAll {α : Type} (change : α → α × Option Error) (items : List α) :
    List.Forall₂ (fun old new => new = old ∨ new = (change old).1) items
      (changeAll change items).1 := by
  obtain ⟨items', same, each⟩ := forall₂_changeOnto change [] items
  rw [changeAll, same]
  exact each

theorem length_changeAll {α : Type} (change : α → α × Option Error) (items : List α) :
    (changeAll change items).1.length = items.length :=
  (forall₂_changeAll change items).length_eq.symm

theorem BodyAttribute.Storable.relocate {attr : BodyAttribute} (storable : attr.Storable pool)
    (relocated : Nat → Except Error Nat) : (attr.relocate relocated).1.Storable pool := by
  cases attr with
  | lines name rows | locals name rows | localTypes name rows =>
      exact ⟨storable.1, (length_changeAll _ rows).trans_le storable.2⟩
  | other raw => exact storable

theorem BodyAttribute.Storable.extended {attr : BodyAttribute} (storable : attr.Storable pool)
    (sound : pool.Sound) (extended : Pool.Extended pool pool') : attr.Storable pool' := by
  cases attr with
  | lines name rows | locals name rows | localTypes name rows =>
      exact ⟨extended.textAt sound storable.1, storable.2⟩
  | other raw =>
      obtain ⟨short, text, named, unlisted⟩ := storable
      exact ⟨short, text, extended.textAt sound named, unlisted⟩

theorem Described.relocateDebug (described : code.Described pool)
    (relocated : Nat → Except Error Nat) : (code.relocateDebug relocated).1.Described pool := by
  have each := forall₂_changeAll (BodyAttribute.relocate relocated) code.attributes
  refine ⟨(length_changeAll _ code.attributes).trans_le described.count, ?_⟩
  intro attr member
  obtain ⟨old, known, rfl | rfl⟩ := forall₂_mem_right each member
  · exact described.attributes _ known
  · exact (described.attributes _ known).relocate relocated

theorem Described.extended (described : code.Described pool) (sound : pool.Sound)
    (extended : Pool.Extended pool pool') : code.Described pool' :=
  ⟨described.count, fun attr member => (described.attributes attr member).extended sound extended⟩

theorem Described.withoutFrames (described : code.Described pool) (named : Pool) :
    (code.withoutFrames named).Described pool :=
  ⟨Nat.le_trans (List.length_filter_le _ _) described.count,
    fun attr member => described.attributes attr (List.mem_of_mem_filter member)⟩

theorem Described.congr {code' : Code} (described : code.Described pool)
    (same : code'.attributes = code.attributes) : code'.Described pool :=
  ⟨same ▸ described.count, same ▸ described.attributes⟩

structure Tidy (pool : Pool) (code : Code) : Prop where
  described : code.Described pool
  bounded : code.bytes.size ≤ maxLength

namespace Cursor

variable {cursor next : Cursor}

theorem insertGap_described {gap : Gap} {start : Nat}
    (inserted : cursor.insertGap gap = .ok (start, next)) (described : cursor.code.Described pool) :
    next.code.Described pool := by
  obtain ⟨layout, stages, _⟩ := insertGap_eq_ok.1 inserted
  apply (described.relocateDebug layout.relocate).congr
  rw [relocateDebug, stages.attributes]

theorem insertGap_tidy {gap : Gap} {start : Nat} (inserted : cursor.insertGap gap = .ok (start, next))
    (described : cursor.code.Described pool) : next.code.Tidy pool := by
  obtain ⟨_, _, opened⟩ := insertGap_opened inserted
  exact ⟨insertGap_described inserted described, opened.bounded⟩

theorem overwrite_tidy {pos : Nat} {bytes : List UInt8} (written : cursor.overwrite pos bytes = .ok next)
    (tidy : cursor.code.Tidy pool) : next.code.Tidy pool := by
  have size := (overwrite_overwritten written).size
  unfold overwrite at written
  split at written
  · cases written
    exact ⟨tidy.described.congr rfl, size.trans_le tidy.bounded⟩
  · cases written

end Cursor
end Code

namespace Edit

open Binary (reader_bind_eq_ok reader_pure_eq_ok)
open Code (Buffer Cursor)

section Tidy

variable {pool : Pool} {code : Code} {cursor next : Cursor} {length : Nat}

theorem callBefore_tidy {pos : Nat} (called : callBefore cursor pos length = .ok next)
    (tidy : cursor.code.Tidy pool) : next.code.Tidy pool := by
  obtain ⟨⟨call, isWide, opened⟩, gap, called⟩ := bind_eq_ok.1 called
  refine Cursor.overwrite_tidy called ?_
  unfold openCall at gap
  split at gap
  · obtain ⟨_, inserted, gap⟩ := bind_eq_ok.1 gap
    cases pure_eq_ok.1 gap
    exact Cursor.insertGap_tidy inserted tidy.described
  · obtain ⟨⟨start, middle⟩, inserted, further⟩ := bind_eq_ok.1 gap
    have first := Cursor.insertGap_tidy inserted tidy.described
    dsimp only at further
    split at further
    · obtain ⟨_, widened, further⟩ := bind_eq_ok.1 further
      cases pure_eq_ok.1 further
      exact Cursor.insertGap_tidy widened first.described
    · cases pure_eq_ok.1 further
      exact first

theorem callStep_tidy {count : Nat} (stepped : callStep cursor length = .ok (some (next, count)))
    (tidy : cursor.code.Tidy pool) : next.code.Tidy pool := by
  obtain ⟨size, opcode, _, _, _, _, _, ⟨_, _, called⟩ | ⟨_, _, rfl⟩⟩ := callStep_eq_some stepped
  · exact callBefore_tidy called tidy
  · exact tidy

theorem callFrom_tidy {calls total : Nat} (done : callFrom length calls cursor = .ok (total, code))
    (tidy : cursor.code.Tidy pool) : code.Tidy pool := by
  fun_induction callFrom length calls cursor with
  | case1 => cases done
  | case2 =>
      cases done
      exact tidy
  | case3 calls cursor next inserted stepped _ ih => exact ih done (callStep_tidy stepped tidy)
  | case4 calls cursor next inserted stepped =>
      cases done
      exact callStep_tidy stepped tidy

theorem callBeforeReturns_tidy {total : Nat} {base : Code}
    (done : callBeforeReturns base length = .ok (total, code)) (tidy : base.Tidy pool) :
    code.Tidy pool :=
  callFrom_tidy done tidy

theorem raiseLimits_tidy {buffer : Buffer} {raised : Code}
    (done : raiseLimits code buffer = .ok raised) (tidy : code.Tidy pool) : raised.Tidy pool := by
  obtain ⟨_, _, done⟩ := bind_eq_ok.1 done
  cases pure_eq_ok.1 done
  exact ⟨tidy.described.congr rfl, tidy.bounded⟩

theorem append_tidy {bytes : Array UInt8} {offset : Nat}
    (appended : cursor.append bytes = .ok (offset, next)) (tidy : cursor.code.Tidy pool) :
    next.code.Tidy pool := by
  obtain ⟨_, _, _, bounded, _⟩ := append_eq_ok appended
  refine ⟨tidy.described.congr ?_, bounded⟩
  unfold Cursor.append at appended
  obtain ⟨_, _, appended⟩ := bind_eq_ok.1 appended
  split at appended
  · cases appended
  · cases pure_eq_ok.1 appended
    rfl

theorem appendAfter_tidy {buffer : Buffer} {start handlerLength : Nat} {asFinally : Bool}
    {base : Code} (done : appendAfter code start handlerLength buffer asFinally = .ok (length, base))
    (tidy : code.Tidy pool) : base.Tidy pool := by
  unfold appendAfter at done
  obtain ⟨raised, step, done⟩ := bind_eq_ok.1 done
  have tidy := raiseLimits_tidy step tidy
  obtain ⟨⟨block, cursor⟩, step, done⟩ := bind_eq_ok.1 done
  have tidy := append_tidy step tidy
  obtain ⟨cursor', step, done⟩ := bind_eq_ok.1 done
  obtain ⟨table, _, finished⟩ := bind_eq_ok.1 step
  cases pure_eq_ok.1 finished
  cases asFinally with
  | false =>
      cases pure_eq_ok.1 done
      exact ⟨tidy.described.congr rfl, tidy.bounded⟩
  | true =>
      obtain ⟨_, _, done⟩ := bind_eq_ok.1 done
      cases pure_eq_ok.1 done
      exact ⟨tidy.described.congr rfl, tidy.bounded⟩

theorem withPrologue_tidy {context : Context} {source : String} {built : Code} {pool₁ pool₂ : Pool}
    (made : outcome (withPrologue context source code) pool₁ = (.ok built, pool₂))
    (tidy : code.Tidy pool) : built.Tidy pool := by
  obtain ⟨scope, buffer, limited, start, cursor, cursor', _, raised, inserted, prepended, rfl⟩ :=
    outcome_withPrologue_eq_ok.1 made
  obtain ⟨⟨_, middle⟩, opened, inserted⟩ := bind_eq_ok.1 inserted
  obtain ⟨_, written, inserted⟩ := bind_eq_ok.1 inserted
  cases pure_eq_ok.1 inserted
  have opening := Cursor.insertGap_tidy opened (raiseLimits_tidy raised tidy).described
  have tidy := Cursor.overwrite_tidy written opening
  obtain ⟨_, _, prepended⟩ := bind_eq_ok.1 prepended
  cases pure_eq_ok.1 prepended
  exact ⟨tidy.described.congr rfl, tidy.bounded⟩

theorem withEpilogue_tidy {context : Context} {isConstructor : Bool} {source : String}
    {asFinally : Bool} {built : Code} {pool₁ pool₂ : Pool}
    (made : outcome (withEpilogue context isConstructor source asFinally code) pool₁ =
      (.ok built, pool₂)) (tidy : code.Tidy pool) : built.Tidy pool := by
  obtain ⟨start, handlerLength, buffer, length, base, calls, _, _, appended, called⟩ :=
    outcome_withEpilogue_eq_ok.1 made
  exact callBeforeReturns_tidy called (appendAfter_tidy appended tidy)

theorem withCatch_tidy {context : Context} {isConstructor : Bool} {source caught name : String}
    {built : Code} {pool₁ pool₂ : Pool}
    (made : outcome (withCatch context isConstructor source caught name code) pool₁ =
      (.ok built, pool₂)) (tidy : code.Tidy pool) : built.Tidy pool := by
  obtain ⟨start, buffer, middle, raised, catchType, block, cursor, table, handlers, _, _, limited, _,
    appended, _, _, rfl⟩ := outcome_withCatch_eq_ok.1 made
  have tidy := append_tidy appended (raiseLimits_tidy limited tidy)
  exact ⟨tidy.described.congr rfl, tidy.bounded⟩

theorem newBody_attributes {context : Context} {source : String} {built : Code} {pool₁ pool₂ : Pool}
    (made : outcome (newBody context source) pool₁ = (.ok built, pool₂)) : built.attributes = [] := by
  obtain ⟨buffer, _, _, made⟩ := outcome_bind_eq_ok.1 made
  obtain ⟨answer, _, _, made⟩ := outcome_bind_eq_ok.1 made
  obtain ⟨_, _, made⟩ := bind_eq_ok.1 (outcome_demand_eq_ok.1 made).1
  cases pure_eq_ok.1 made
  rfl

end Tidy

section Appends

variable {α : Type}

theorem appends_demand (result : Except Error α) : Appends (demand result) := by
  cases result with
  | ok value => exact Pool.appends_pure value
  | error error => exact Pool.appends_throw _

theorem appends_demandEdit (result : Except Fault α) : Appends (demandEdit result) := by
  cases result with
  | ok value => exact Pool.appends_pure value
  | error fault => exact Pool.appends_throw _

theorem appends_interned {change : PoolM α} (appends : Appends change) :
    Appends (interned change) :=
  appends.adapt _

def Compiler.Adds (compiler : Compiler) : Prop :=
  ∀ source scope buffer, Appends (compiler source scope buffer)

theorem adds_assemble : Compiler.Adds assemble :=
  Assembler.appends_assemble

variable {compiler : Compiler}

theorem appends_compileWith (adds : compiler.Adds) (source : String) (scope : Assembler.Scope)
    (buffer : Buffer) : Appends (compileWith compiler source scope buffer) :=
  ((adds source scope buffer).adapt _).bind fun _ => Pool.appends_pure _

theorem appends_compileSubroutine (adds : compiler.Adds) (source : String)
    (returns : Option Descriptor.FieldType) (returnAddress result : Nat) (scope : Assembler.Scope)
    (buffer : Buffer) :
    Appends (compileSubroutine compiler source returns returnAddress result scope buffer) := by
  unfold compileSubroutine
  refine (appends_demand _).bind fun stored => ?_
  cases returns with
  | none =>
      exact (appends_demand _).bind fun _ => (appends_compileWith adds _ _ _).bind fun _ =>
        appends_demand _
  | some type =>
      exact (appends_demand _).bind fun _ => (appends_compileWith adds _ _ _).bind fun _ =>
        (appends_demand _).bind fun _ => appends_demand _

theorem appends_compileAfter (adds : compiler.Adds) (source : String) (context : Context) (code : Code)
    (asFinally : Bool) : Appends (compileAfter compiler source context code asFinally) := by
  unfold compileAfter
  refine (appends_demand _).bind fun _ => ?_
  cases asFinally with
  | false => exact (appends_compileSubroutine adds _ _ _ _ _ _).bind fun _ => Pool.appends_pure _
  | true =>
      exact (appends_demand _).bind fun _ =>
        (appends_compileSubroutine adds _ _ _ _ _ _).bind fun _ => Pool.appends_pure _

theorem appends_withPrologue (context : Context) (source : String) (code : Code) :
    Appends (withPrologue context source code) :=
  (appends_compileWith adds_assemble _ _ _).bind fun _ => (appends_demand _).bind fun _ =>
    (appends_demand _).bind fun _ => (appends_demand _).bind fun _ => Pool.appends_pure _

theorem appends_withEpilogue (context : Context) (isConstructor : Bool) (source : String)
    (asFinally : Bool) (code : Code) :
    Appends (withEpilogue context isConstructor source asFinally code) :=
  Pool.appends_get.bind fun _ => (appends_demandEdit _).bind fun _ =>
    (appends_compileAfter adds_assemble _ _ _ _).bind fun _ => (appends_demand _).bind fun _ =>
      (appends_demand _).bind fun _ => Pool.appends_pure _

theorem appends_withCatch (context : Context) (isConstructor : Bool) (source caught name : String)
    (code : Code) : Appends (withCatch context isConstructor source caught name code) :=
  Pool.appends_get.bind fun _ => (appends_demandEdit _).bind fun _ => (appends_demand _).bind fun _ =>
    (appends_demand _).bind fun _ => (appends_compileWith adds_assemble _ _ _).bind fun _ =>
      (appends_demand _).bind fun _ => (appends_interned (Pool.appends_internClass _)).bind fun _ =>
        (appends_demand _).bind fun _ => (appends_demand _).bind fun _ => (appends_demand _).bind fun _ =>
          Pool.appends_pure _

theorem appends_newBody (context : Context) (source : String) : Appends (newBody context source) :=
  (appends_compileWith adds_assemble _ _ _).bind fun _ => (appends_demand _).bind fun _ => appends_demand _

end Appends

section Builds

variable {editor editor' : Editor} {index : Nat} {context : Context} {isConstructor : Bool}
  {code built : Code} {pool : Pool} {change : Change}

theorem Change.Builds.extended (builds : change.Builds editor index context isConstructor built pool) :
    Pool.Extended editor.file.pool pool := by
  cases change with
  | before source =>
      obtain ⟨code, _, made⟩ := builds
      exact (appends_withPrologue context source code).extended made
  | after source asFinally =>
      obtain ⟨code, _, made⟩ := builds
      exact (appends_withEpilogue context isConstructor source asFinally code).extended made
  | catching source exceptionType name =>
      obtain ⟨code, caught, _, _, made⟩ := builds
      exact (appends_withCatch context isConstructor source caught name code).extended made
  | anew source => exact (appends_newBody context source).extended builds

theorem storable_of_bodyAt (read : outcome (bodyAt index) editor = (.ok (some code), editor')) :
    code.Storable editor.file.pool := by
  obtain ⟨method, _, read, _⟩ := outcome_bodyAt_eq_ok.1 read
  unfold Member.code at read
  split at read
  · cases read
  · obtain ⟨parsed, done, same⟩ := map_eq_ok.1 read
    cases same
    exact (Code.parse_eq_ok.1 done).1

theorem Change.Builds.tidy (builds : change.Builds editor index context isConstructor built pool) :
    built.Described editor.file.pool ∧
      ((∀ source, change ≠ .anew source) → built.bytes.size ≤ Code.maxLength) := by
  have tidy {code : Code} (read : outcome (bodyAt index) editor = (.ok (some code), editor)) :
      code.Tidy editor.file.pool :=
    ⟨(storable_of_bodyAt read).toDescribed, (storable_of_bodyAt read).bounded⟩
  have split (tidy : built.Tidy editor.file.pool) : built.Described editor.file.pool ∧
      ((∀ source, change ≠ .anew source) → built.bytes.size ≤ Code.maxLength) :=
    ⟨tidy.described, fun _ => tidy.bounded⟩
  cases change with
  | before source =>
      obtain ⟨code, read, made⟩ := builds
      exact split (withPrologue_tidy made (tidy read))
  | after source asFinally =>
      obtain ⟨code, read, made⟩ := builds
      exact split (withEpilogue_tidy made (tidy read))
  | catching source exceptionType name =>
      obtain ⟨code, caught, read, _, made⟩ := builds
      exact split (withCatch_tidy made (tidy read))
  | anew source =>
      have empty := newBody_attributes builds
      exact ⟨⟨by rw [empty]; exact Nat.zero_le _, by rw [empty]; exact nofun⟩,
        fun adds => absurd rfl (adds source)⟩

end Builds

section Readable

theorem find?_replace {attributes : List Attribute} {pool : Pool} {name : String} {new : Attribute}
    (named : new.isNamed pool name = true) :
    Attribute.find? (Attribute.replace attributes pool name new) pool name = some new :=
  (Attribute.put_findIdx? _ _ _).find? named

theorem appends_make (name : String) (info : List UInt8) : Appends (Attribute.make name info) :=
  (Pool.appends_internText name).bind fun _ => Pool.appends_pure _

theorem outcome_make_eq_ok {name : String} {info : List UInt8} {pool pool' : Pool} {attr : Attribute}
    (sound : pool.Sound) (made : outcome (Attribute.make name info) pool = (.ok attr, pool')) :
    attr.isNamed pool' name = true ∧ attr.info = info := by
  obtain ⟨nameIndex, _, interned, made⟩ := outcome_bind_eq_ok.1 made
  obtain ⟨rfl, rfl⟩ := outcome_pure_eq_ok.1 made
  refine ⟨?_, rfl⟩
  simp only [Attribute.isNamed, Pool.textAt_of_internText sound interned, beq_self_eq_true]

theorem outcome_setCode_eq_ok {method method' : Member} {code : Code} {pool pool' : Pool}
    (sound : pool.Sound) (done : outcome (method.setCode code) pool = (.ok method', pool')) :
    Pool.Extended pool pool' ∧ method'.code pool' = (Code.parse code.write pool').map some := by
  obtain ⟨attr, middle, made, done⟩ := outcome_bind_eq_ok.1 done
  obtain ⟨named, info⟩ := outcome_make_eq_ok sound made
  obtain ⟨_, _, got, done⟩ := outcome_bind_eq_ok.1 done
  obtain ⟨rfl, rfl⟩ := outcome_get_eq_ok.1 got
  obtain ⟨rfl, rfl⟩ := outcome_pure_eq_ok.1 done
  have found : Attribute.find? (method.setAttribute middle Code.attributeName attr).attributes middle
      Code.attributeName = some attr := find?_replace named
  refine ⟨(appends_make _ _).extended made, ?_⟩
  rw [Member.code, found, ← info]

/-- A method has a body of allowed length that is made of instructions, on which its handlers lie. -/
structure Readable (editor : Editor) (index : Nat) (code : Code) : Prop where
  read : outcome (bodyAt index) editor = (.ok (some code), editor)
  size : 1 ≤ code.bytes.size ∧ code.bytes.size ≤ 65535
  decodes : ∃ listing, Code.Listing.decode code.bytes = .ok listing ∧
    ∀ handler ∈ code.handlers, handler.Fits listing

variable {editor editor' : Editor} {index : Nat} {built : Code} {pool : Pool} {change : Change}

theorem Written.readable_iff (written : Written editor editor' index built pool)
    (sound : pool.Sound) (described : built.Described pool) :
    Readable editor' index (built.withoutFrames pool) ↔
      built.bytes.size ≤ Code.maxLength ∧ built.handlers.length ≤ 65535 := by
  obtain ⟨method, method', flags, pool', found, stored, same⟩ := written.stored
  obtain ⟨listing, decoded, nonempty, fits⟩ := checkBody_sound written.sound
  obtain ⟨extended, reads⟩ := outcome_setCode_eq_ok sound stored
  have inRange := (Array.getElem?_eq_some_iff.1 found).1
  have found' : editor'.file.methods[index]? = some { method' with flags } := by
    rw [← same]
    exact Array.getElem?_setIfInBounds_self_of_lt inRange
  have pool_eq : editor'.file.pool = pool' := by rw [← same]
  have body : outcome (bodyAt index) editor' = (.ok (some (built.withoutFrames pool)), editor') ↔
      (built.withoutFrames pool).Storable pool' := by
    rw [outcome_bodyAt_eq_ok, found', pool_eq]
    simp only [Option.some.injEq, exists_eq_left']
    show method'.code pool' = _ ∧ _ ↔ _
    rw [reads, map_eq_ok]
    simp only [Option.some.injEq, exists_eq_right, Code.parse_eq_ok, and_true]
  constructor
  · rintro ⟨read, size, _⟩
    exact ⟨size.2, (body.1 read).handlers⟩
  · rintro ⟨bounded, many⟩
    refine ⟨body.2 ⟨(described.withoutFrames pool).extended sound extended, nonempty, bounded, many⟩,
      ⟨nonempty, bounded⟩, listing, decoded, fits⟩

theorem pool_sound_of_parse {bytes : List UInt8} (parsed : Editor.parse bytes = .ok editor) :
    editor.file.pool.Sound := by
  obtain ⟨file, done, rfl⟩ := map_eq_ok.1 parsed
  obtain ⟨filled, _⟩ := ClassFile.parse_eq_ok.1 (checked_eq_ok.1 done)
  exact filled.sound

/-- Behind an edit of a class that was parsed a method has the body that was built, exactly if that is
not too long and has not too many handlers. Only a new body can be too long. -/
theorem run_readable_iff {bytes : List UInt8} (parsed : Editor.parse bytes = .ok editor)
    (done : outcome (change.run index) editor = (.ok (), editor')) :
    ∃ context isConstructor built pool, outcome (contextAt index) editor = (.ok context, editor) ∧
      change.Builds editor index context isConstructor built pool ∧
      ((∀ source, change ≠ .anew source) → built.bytes.size ≤ Code.maxLength) ∧
      (Readable editor' index (built.withoutFrames pool) ↔
        built.bytes.size ≤ Code.maxLength ∧ built.handlers.length ≤ 65535) := by
  have sound := pool_sound_of_parse parsed
  obtain ⟨context, isConstructor, built, pool, known, builds, written⟩ := Change.written done
  have extended := builds.extended
  obtain ⟨described, bounded⟩ := builds.tidy
  exact ⟨context, isConstructor, built, pool, known, builds, bounded,
    written.readable_iff (extended.sound sound) (described.extended sound extended)⟩

def smallBytes : List UInt8 :=
  [0xca, 0xfe, 0xba, 0xbe, 0, 0, 0, 50, 0, 6, 1, 0, 1, 0x43, 7, 0, 1, 1, 0, 1, 0x6d,
    1, 0, 3, 0x28, 0x29, 0x56, 1, 0, 4, 0x43, 0x6f, 0x64, 0x65,
    0, 0x21, 0, 2, 0, 0, 0, 0, 0, 0, 0, 1, 0, 9, 0, 3, 0, 4, 0, 1, 0, 5, 0, 0, 0, 17,
    0, 1, 0, 1, 0, 0, 0, 5, 0x1a, 0x99, 0xff, 0xff, 0xb1, 0, 0, 0, 0, 0, 0]

set_option maxRecDepth 4000 in
theorem parse_smallBytes : Editor.parse smallBytes = .ok (smallClass Cursor.loopBody.code) := by
  have pool : Pool.readOnto 6 .empty (smallBytes.drop 10) = .ok (smallPool, smallBytes.drop 34) := by
    show Pool.readOnto 6 .empty [1, 0, 1, 0x43, 7, 0, 1, 1, 0, 1, 0x6d,
      1, 0, 3, 0x28, 0x29, 0x56, 1, 0, 4, 0x43, 0x6f, 0x64, 0x65,
      0, 0x21, 0, 2, 0, 0, 0, 0, 0, 0, 0, 1, 0, 9, 0, 3, 0, 4, 0, 1, 0, 5, 0, 0, 0, 17,
      0, 1, 0, 1, 0, 0, 0, 5, 0x1a, 0x99, 0xff, 0xff, 0xb1, 0, 0, 0, 0, 0, 0] = _
    rw [Pool.readOnto_push (by decide) (show Pool.Constant.read _ = .ok (.text "C", _) by cbv) rfl]
    rw [Pool.readOnto_push (by decide) (show Pool.Constant.read _ = .ok (.classRef 1, _) by cbv) rfl]
    rw [Pool.readOnto_push (by decide) (show Pool.Constant.read _ = .ok (.text "m", _) by cbv) rfl]
    rw [Pool.readOnto_push (by decide) (show Pool.Constant.read _ = .ok (.text "()V", _) by cbv) rfl]
    rw [Pool.readOnto_push (by decide)
      (show Pool.Constant.read _ = .ok (.text Code.attributeName, _) by cbv) rfl]
    exact Pool.readOnto_done rfl
  have body : ClassFile.readBody (smallBytes.drop 4) =
      .ok ((smallClass Cursor.loopBody.code).file, []) := by
    refine reader_bind_eq_ok.2 ⟨⟨50, 0⟩, smallBytes.drop 8, rfl, ?_⟩
    refine reader_bind_eq_ok.2 ⟨smallPool, smallBytes.drop 34,
      reader_bind_eq_ok.2 ⟨6, smallBytes.drop 10, rfl, pool⟩, ?_⟩
    refine reader_bind_eq_ok.2 ⟨0x21, smallBytes.drop 36, rfl, ?_⟩
    refine reader_bind_eq_ok.2 ⟨2, smallBytes.drop 38, rfl, ?_⟩
    refine reader_bind_eq_ok.2 ⟨0, smallBytes.drop 40, rfl, ?_⟩
    refine reader_bind_eq_ok.2 ⟨[], smallBytes.drop 42, rfl, ?_⟩
    refine reader_bind_eq_ok.2 ⟨[], smallBytes.drop 44, rfl, ?_⟩
    refine reader_bind_eq_ok.2 ⟨[⟨0x9, 3, 4, [⟨5, Cursor.loopBody.code.write⟩]⟩],
      smallBytes.drop 77, ?_, ?_⟩
    · cbv
    · exact reader_bind_eq_ok.2 ⟨[], [], rfl, rfl⟩
  have parsed : ClassFile.parse smallBytes = .ok (smallClass Cursor.loopBody.code).file := by
    have taken : Binary.Reader.take 4 smallBytes = .ok (ClassFile.magic, smallBytes.drop 4) := rfl
    have named : ClassFile.name (smallClass Cursor.loopBody.code).file = .ok "C" := by
      obtain ⟨indices, same⟩ := smallPool_eq
      simp only [smallClass, same]
      cbv
    unfold ClassFile.parse
    simp only [taken, body, named]
    rfl
  show (checked (ClassFile.parse smallBytes)).map Editor.ofFile = _
  rw [parsed]
  rfl

theorem run_readable_iff_spin :
    ∃ editor editor', Editor.parse smallBytes = .ok editor ∧
      outcome ((Change.anew spinSource).run 0) editor = (.ok (), editor') ∧
      Readable editor' 0 spinCode := by
  obtain ⟨editor', done⟩ := exists_setBody_spin Cursor.loopBody.code
  have done : outcome ((Change.anew spinSource).run 0) (smallClass Cursor.loopBody.code) =
      (.ok (), editor') := done
  obtain ⟨context, _, built, pool, known, builds, _, exactly⟩ :=
    run_readable_iff parse_smallBytes done
  cases known.symm.trans (contextAt_smallClass _)
  cases builds.symm.trans (newBody_spin compileWith_spin_smallPool)
  exact ⟨_, editor', parse_smallBytes, done, exactly.2 ⟨by decide, by decide⟩⟩

end Readable
end Edit
end ClassSplice
