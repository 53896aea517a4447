import ClassSplice.Proofs.ClassFile.RoundTrip
import ClassSplice.Proofs.Edit.Operation

namespace ClassSplice

theorem Pool.Extended.classNameAt {before after : Pool} {index : Pool.Index} {name : String}
    (extended : Extended before after) (sound : before.Sound)
    (known : before.classNameAt index = .ok name) : after.classNameAt index = .ok name := by
  obtain ⟨constant, got, rest⟩ := bind_eq_ok.1 known
  refine bind_eq_ok.2 ⟨constant, extended.get sound got, ?_⟩
  split at rest
  · exact extended.textAt sound rest
  · cases rest

namespace ClassFile

variable {file : ClassFile} {bytes : List UInt8}

structure Regular (file : ClassFile) : Prop where
  filled : file.pool.Filled
  named : ∃ name, file.name = .ok name
  known : file.outline.Known
  interfaces : file.interfaces.length ≤ 65535
  fields : file.fields.length ≤ 65535 ∧ ∀ field ∈ file.fields, Attribute.Countable field.attributes
  methods : file.methods.size ≤ 65535
  attributes : Attribute.Countable file.attributes

theorem regular_of_parse (parsed : parse bytes = .ok file) : file.Regular := by
  obtain ⟨filled, named, transcript, of⟩ := parse_eq_ok.1 parsed
  have known : file.outline.Known := of.outline ▸ transcript.outline.known_masked
  have countable : file.outline.Countable := of.outline ▸ Outline.countable_masked of.countable
  exact ⟨filled, named, known, countable.interfaces, countable.fields, countable.methods.1,
    countable.attributes⟩

theorem Regular.readsBack_iff (regular : file.Regular) :
    (∃ bytes, file.toBytes = .ok bytes ∧ parse bytes = .ok file) ↔
      (∀ constant ∈ file.pool.constants.toList, constant.Storable) ∧
        ∀ method ∈ file.methods, Attribute.Countable method.attributes := by
  obtain ⟨name, named⟩ := regular.named
  rw [ClassFile.readsBack_iff regular.filled named]
  refine and_congr_right fun _ => ?_
  constructor
  · rintro ⟨_, countable⟩ method member
    exact countable.methods.2 method (Array.mem_toList_iff.2 member)
  · intro countable
    refine ⟨regular.known, regular.interfaces, regular.fields, ⟨regular.methods, ?_⟩, regular.attributes⟩
    exact fun method member => countable method (Array.mem_toList_iff.1 member)

end ClassFile

namespace Edit

variable {compiler : Compiler} {editor editor' : Editor} {index : Nat} {pool : Pool}

theorem regular_withPool (regular : editor.file.Regular)
    (extended : Pool.Extended editor.file.pool pool) : (editor.withPool pool).file.Regular where
  filled := extended.filled regular.filled
  named := regular.named.imp fun _ named => extended.classNameAt regular.filled.sound named
  known := ⟨regular.known.flags, regular.known.fields, regular.known.methods⟩
  interfaces := regular.interfaces
  fields := regular.fields
  methods := regular.methods
  attributes := regular.attributes

theorem regular_withMethod {method : Member} (regular : editor.file.Regular)
    (known : method.flags &&& Flags.ofMethod = method.flags) :
    (editor.withMethod index method).file.Regular where
  filled := regular.filled
  named := regular.named
  known := by
    refine ⟨regular.known.flags, regular.known.fields, ?_⟩
    intro one member
    rcases Array.mem_or_eq_of_mem_setIfInBounds (Array.mem_toList_iff.1 member) with old | rfl
    · exact regular.known.methods one (Array.mem_toList_iff.2 old)
    · exact known
  interfaces := regular.interfaces
  fields := regular.fields
  methods := by
    rw [Editor.withMethod, Array.size_setIfInBounds]
    exact regular.methods
  attributes := regular.attributes

theorem Change.known_flags {flags : UInt16} (change : Change)
    (known : flags &&& Flags.ofMethod = flags) :
    change.flags flags &&& Flags.ofMethod = change.flags flags := by
  cases change with
  | anew source =>
      show flags &&& _ &&& Flags.ofMethod = flags &&& _
      rw [UInt16.and_assoc, UInt16.and_comm _ Flags.ofMethod, ← UInt16.and_assoc, known]
  | before source => exact known
  | after source asFinally => exact known
  | catching source exceptionType name => exact known

theorem Operation.Effect.known {operation : Operation} {old new : Member}
    (effect : operation.Effect old pool new) (known : old.flags &&& Flags.ofMethod = old.flags) :
    new.flags &&& Flags.ofMethod = new.flags := by
  match operation with
  | modifiers flags meaning =>
      obtain rfl : new = _ := effect
      exact meaning
  | exceptions none =>
      obtain rfl : new = _ := effect
      exact known
  | exceptions (some names) =>
      obtain ⟨_, _, _, _, rfl⟩ := effect
      exact known
  | attr name data =>
      obtain ⟨_, _, _, _, rfl⟩ := effect
      exact known
  | body change =>
      obtain ⟨_, _, _, _, rfl⟩ := effect
      exact change.known_flags known

theorem outcome_run_eq_ok (adds : compiler.Adds) (sound : editor.file.pool.Sound) {operation : Operation}
    (done : outcome (operation.run compiler index) editor = (.ok (), editor')) :
    ∃ old pool new, editor.file.methods[index]? = some old ∧
      Pool.Extended editor.file.pool pool ∧ operation.Effect old pool new ∧
      editor' = (editor.withPool pool).withMethod index new := by
  obtain ⟨old, found⟩ := operation.finds compiler index _ _ _ done
  have edited := operation.edits adds editor sound found
  rw [done] at edited
  cases edited with
  | done extended changed => exact ⟨old, _, _, found, extended, changed, rfl⟩

theorem regular_run (adds : compiler.Adds) (regular : editor.file.Regular) {operation : Operation}
    (done : outcome (operation.run compiler index) editor = (.ok (), editor')) :
    editor'.file.Regular := by
  obtain ⟨old, pool, new, found, extended, changed, rfl⟩ := outcome_run_eq_ok adds regular.filled.sound done
  have known := regular.known.methods old (Array.mem_toList_iff.2 (Array.mem_of_getElem? found))
  exact regular_withMethod (regular_withPool regular extended) (changed.known known)

def runAll (compiler : Compiler) (edits : List (Nat × Operation)) : EditM Unit :=
  edits.forM fun (index, operation) => operation.run compiler index

theorem regular_runAll (adds : compiler.Adds) (regular : editor.file.Regular)
    {edits : List (Nat × Operation)}
    (done : outcome (runAll compiler edits) editor = (.ok (), editor')) : editor'.file.Regular := by
  -- On the edits still to come: each finds a class that keeps to the format.
  induction edits generalizing editor with
  | nil =>
      obtain ⟨_, rfl⟩ := outcome_pure_eq_ok.1 done
      exact regular
  | cons edit edits ih =>
      obtain ⟨_, middle, ran, done⟩ := outcome_bind_eq_ok.1 done
      exact ih (regular_run adds regular ran) done

/-- Behind edits of a class that was read, the class is written and read back as it is, exactly if no text
in its pool is too long and the attributes of each method can be counted. -/
theorem runAll_readsBack_iff {bytes : List UInt8} {edits : List (Nat × Operation)}
    (adds : compiler.Adds) (parsed : Editor.parse bytes = .ok editor)
    (done : outcome (runAll compiler edits) editor = (.ok (), editor')) :
    (∃ written, editor'.toBytes.1 = .ok written ∧ ClassFile.parse written = .ok editor'.file) ↔
      (∀ constant ∈ editor'.file.pool.constants.toList, constant.Storable) ∧
        ∀ method ∈ editor'.file.methods, Attribute.Countable method.attributes := by
  obtain ⟨file, read, rfl⟩ := map_eq_ok.1 parsed
  have regular := ClassFile.regular_of_parse (checked_eq_ok.1 read)
  rw [← (regular_runAll adds regular done).readsBack_iff]
  exact exists_congr fun written => and_congr_left' checked_eq_ok

def sessionEdits : List (Nat × Operation) :=
  [(0, .attr "X" [0xca, 0xfe]), (0, .body (.anew spinSource)), (0, .modifiers 0x1 rfl)]

def sessionPool : Pool :=
  smallPool.push (.text "X")

def sessionMethod (flags : UInt16) (body : Code) : Member :=
  ⟨flags, 3, 4, [⟨5, body.write⟩, ⟨6, [0xca, 0xfe]⟩]⟩

def sessionClass (flags : UInt16) (body : Code) : Editor :=
  ((smallClass Code.Cursor.loopBody.code).withPool sessionPool).withMethod 0 (sessionMethod flags body)

theorem sessionPool_eq : ∃ indices, sessionPool = ⟨⟨#[(1, .text "C"), (2, .classRef 1), (3, .text "m"),
    (4, .text "()V"), (5, .text Code.attributeName), (6, .text "X")], 7⟩, indices⟩ :=
  ⟨_, rfl⟩

theorem outcome_setAttribute_smallClass : outcome (setAttribute 0 "X" [0xca, 0xfe])
    (smallClass Code.Cursor.loopBody.code) = (.ok (), sessionClass 0x9 Code.Cursor.loopBody.code) := by
  have interned : outcome (Pool.internText "X") smallPool = (.ok 6, sessionPool) :=
    Pool.intern_of_missing (Pool.unknown_foldl_push (by decide)) rfl
  refine outcome_bind_eq_ok.2 ⟨(), _, outcome_requireThawed_eq_ok.2 ⟨rfl, rfl⟩, ?_⟩
  refine outcome_bind_eq_ok.2 ⟨_, _, outcome_methodAt_eq_ok.2 ⟨rfl, rfl⟩, ?_⟩
  exact outcome_bind_eq_ok.2 ⟨6, _, outcome_onPool_eq_ok.2
    ⟨sessionPool, outcome_adapt_eq_ok.2 interned, rfl⟩, rfl⟩

theorem outcome_setCode_sessionMethod (flags : UInt16) (body code : Code) :
    outcome ((sessionMethod flags body).setCode code) sessionPool =
      (.ok (sessionMethod flags code), sessionPool) := by
  have unknown : Pool.Unknown ([.text "C", .classRef 1, .text "m", .text "()V"].foldl Pool.push .empty)
      (.text Code.attributeName) := Pool.unknown_foldl_push (by decide)
  have known : sessionPool.Known 5 (.text Code.attributeName) :=
    (Pool.known_push_of_unknown unknown).push (.text "X")
  have made : outcome (Attribute.make Code.attributeName code.write) sessionPool =
      (.ok ⟨5, code.write⟩, sessionPool) :=
    outcome_bind_eq_ok.2 ⟨5, _, Pool.intern_of_known known, rfl⟩
  have named : sessionPool.textAt 5 = .ok Code.attributeName := by
    have sound : sessionPool.Sound := ((Pool.filled_foldl_push (by decide)).push rfl).sound
    rw [Pool.textAt, known.get sound]
    rfl
  have first : (⟨5, body.write⟩ : Attribute).isNamed sessionPool Code.attributeName = true := by
    simp [Attribute.isNamed, named]
  have put : (sessionMethod flags body).setAttribute sessionPool Code.attributeName ⟨5, code.write⟩ =
      sessionMethod flags code := by
    simp [sessionMethod, Member.setAttribute, Attribute.replace, Attribute.position?, List.findIdx?_cons,
      first]
  refine outcome_bind_eq_ok.2 ⟨_, _, made, ?_⟩
  exact outcome_bind_eq_ok.2 ⟨_, _, outcome_get_eq_ok.2 ⟨rfl, rfl⟩, outcome_pure_eq_ok.2 ⟨put, rfl⟩⟩

theorem contextAt_sessionClass (body : Code) :
    outcome (contextAt 0) (sessionClass 0x9 body) =
      (.ok ⟨"C", ⟨[], none⟩, true⟩, sessionClass 0x9 body) := by
  obtain ⟨indices, same⟩ := sessionPool_eq
  simp only [sessionClass, sessionMethod, smallClass, Editor.withPool, Editor.withMethod, same]
  cbv

theorem outcome_setBody_sessionClass (body : Code) :
    outcome (setBody assemble 0 spinSource) (sessionClass 0x9 body) =
      (.ok (), sessionClass 0x9 spinCode) := by
  have compiled := compileWith_spin (show Assembler.assembled? spinStatements [] (.empty 0 0) sessionPool =
    some (spinBuffer, sessionPool.constants) by decide +kernel)
  exact outcome_setBody_spin rfl rfl (contextAt_sessionClass body) rfl compiled
    (outcome_setCode_sessionMethod 0x9 body spinCode)

theorem runAll_sessionEdits : outcome (runAll assemble sessionEdits)
    (smallClass Code.Cursor.loopBody.code) = (.ok (), sessionClass 0x1 spinCode) := by
  refine outcome_bind_eq_ok.2 ⟨(), _, outcome_setAttribute_smallClass, ?_⟩
  refine outcome_bind_eq_ok.2 ⟨(), _, outcome_setBody_sessionClass _, ?_⟩
  exact outcome_bind_eq_ok.2 ⟨(), sessionClass 0x1 spinCode, rfl, rfl⟩

theorem runAll_readsBack_session : ∃ editor written, Editor.parse smallBytes = .ok editor ∧
    outcome (runAll assemble sessionEdits) editor = (.ok (), sessionClass 0x1 spinCode) ∧
    (sessionClass 0x1 spinCode).toBytes.1 = .ok written ∧
    ClassFile.parse written = .ok (sessionClass 0x1 spinCode).file := by
  have texts : ∀ constant ∈ (sessionClass 0x1 spinCode).file.pool.constants.toList,
      constant.Storable := by
    obtain ⟨file, read, same⟩ := map_eq_ok.1 parse_smallBytes
    cases same
    have old := ClassFile.storable_of_parse (checked_eq_ok.1 read)
    intro constant member
    rw [show (sessionClass 0x1 spinCode).file.pool = sessionPool from rfl, sessionPool, Pool.toList_push,
      List.mem_append, List.mem_singleton] at member
    rcases member with before | rfl
    · exact old constant before
    · rintro _ ⟨⟩
      decide
  have short : ∀ method ∈ (sessionClass 0x1 spinCode).file.methods,
      Attribute.Countable method.attributes := by
    intro method member
    obtain rfl : method = sessionMethod 0x1 spinCode := Array.mem_singleton.1 member
    exact ⟨by decide, by decide⟩
  obtain ⟨written, saved, reads⟩ := (runAll_readsBack_iff adds_assemble parse_smallBytes
    runAll_sessionEdits).2 ⟨texts, short⟩
  exact ⟨_, written, parse_smallBytes, runAll_sessionEdits, saved, reads⟩

end Edit
end ClassSplice
