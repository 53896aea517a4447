import ClassSplice.Proofs.Descriptor.TypeName
import ClassSplice.Proofs.Edit.Attributes

namespace ClassSplice.Edit

open Descriptor (FieldType isDescriptor internalName)
open Text (trim)

variable {compiler : Compiler} {editor editor' : Editor} {index : Nat} {name className : String}
  {names : List String} {classes : List Pool.Index} {old new method : Member} {pool before after : Pool}

/-- The internal name of a class: its name with slashes for dots, or what is inside its descriptor. -/
def internalNameOf (name : String) : String :=
  let visible := trim name.toList
  if isDescriptor visible then String.ofList visible.tail.dropLast else internalName visible

theorem classNameOf_eq_ok (done : classNameOf name = .ok className) : className = internalNameOf name := by
  unfold classNameOf at done
  split at done
  · rename_i object read
    cases done
    rw [FieldType.ofName, FieldType.ofNameChars_eq] at read
    unfold internalNameOf
    split at read
    · rename_i descriptor
      have same := String.ofList_injective (FieldType.parse_eq_ok.1 read).2
      rw [if_pos descriptor, same]
      simp [FieldType.renderChars]
    · rename_i notDescriptor
      rw [if_neg notDescriptor]
      split at read
      · rcases FieldType.ofSimpleName_eq_ok.1 read with ⟨_, _, other⟩ | ⟨_, _, _, same⟩
        · cases other
        · cases same
          rfl
      · obtain ⟨_, _, other⟩ := map_eq_ok.1 read
        cases other
  · cases done

theorem internClasses_eq_ok (sound : before.Sound)
    (done : outcome (internClasses names) before = (.ok classes, after)) :
    List.Forall₂ (fun name index => after.classNameAt index = .ok (internalNameOf name)) names classes := by
  induction names generalizing before classes with
  | nil =>
      obtain ⟨rfl, _⟩ := outcome_pure_eq_ok.1 done
      exact .nil
  | cons name names ih =>
      obtain ⟨className, _, step, done⟩ := outcome_bind_eq_ok.1 done
      obtain ⟨named, rfl⟩ := outcome_demandEdit_eq_ok.1 step
      obtain ⟨first, middle, step, done⟩ := outcome_bind_eq_ok.1 done
      have interned := outcome_adapt_eq_ok.1 step
      obtain ⟨rest, _, others, done⟩ := outcome_bind_eq_ok.1 done
      obtain ⟨rfl, rfl⟩ := outcome_pure_eq_ok.1 done
      have sound' := ((Pool.appends_internClass className).extended interned).sound sound
      have extended := (appends_internClasses names).extended others
      refine .cons ?_ (ih sound' others)
      rw [← classNameOf_eq_ok named]
      exact extended.classNameAt sound' (Pool.classNameAt_of_internClass sound interned)

theorem length_counted (classes : List Pool.Index) :
    (Binary.Writer.counted Binary.Writer.u16 classes).length = 2 + 2 * classes.length := by
  simp [Binary.Writer.counted, Binary.Writer.u16, Binary.BigEndian.length_bytes, Nat.mul_comm]

/-- A list is stored with its length modulo 65536, so that a longer one cannot be read back. -/
theorem decode_counted {attr : Attribute}
    (info : attr.info = Binary.Writer.counted Binary.Writer.u16 classes) :
    attr.decode name (Binary.Reader.counted Binary.Reader.u16) =
      if classes.length ≤ 65535 then .ok classes else .error (.malformedAttribute name) := by
  split
  · rename_i short
    exact (Code.decode_counted_eq_ok Binary.exact_u16).2 ⟨short, info⟩
  · rename_i long
    unfold Attribute.decode
    split
    · rename_i rows read
      have counted := (Binary.all?_eq_some (Binary.exact_counted Binary.exact_u16)).1 read
      have same := congrArg List.length (info.symm.trans counted.2)
      rw [length_counted, length_counted] at same
      have short := counted.1.1
      omega
    · rfl

structure Declares (editor : Editor) (index : Nat) (classes : List Pool.Index) (names : List String) :
    Prop where
  listed : ∃ method attr, editor.file.methods[index]? = some method ∧
    Attribute.find? method.attributes editor.file.pool exceptionsName = some attr ∧
    attr.info = Binary.Writer.counted Binary.Writer.u16 classes
  named : List.Forall₂ (fun index name => editor.file.pool.classNameAt index = .ok name) classes names

theorem Declares.exceptionTypes (declares : Declares editor index classes names) :
    ∃ method, editor.file.methods[index]? = some method ∧
      exceptionTypes method editor.file.pool =
        if names.length ≤ 65535 then .ok (some names)
        else .error (.badClass (.malformedAttribute exceptionsName)) := by
  obtain ⟨method, attr, found, stands, info⟩ := declares.listed
  refine ⟨method, found, ?_⟩
  have named : classes.mapM editor.file.pool.classNameAt = .ok names := mapM_eq_ok.2 declares.named
  rw [Edit.exceptionTypes, stands]
  dsimp only
  rw [decode_counted info, declares.named.length_eq]
  split
  · simp only [ok_bind, named]
    rfl
  · rfl

def Operation.SetsExceptions : Operation → Prop
  | exceptions _ => True
  | attr name _ => name = exceptionsName
  | modifiers _ _ | body _ => False

theorem isNamed_eq_false {attr : Attribute} {name other : String} (named : attr.isNamed pool name = true)
    (different : name ≠ other) : attr.isNamed pool other = false := by
  rw [← Bool.not_eq_true, Attribute.isNamed_iff, Attribute.isNamed_iff.1 named, Except.ok.injEq]
  exact different

theorem find?_exceptions_of_effect {operation : Operation} (effect : operation.Effect old pool new)
    (apart : ¬ operation.SetsExceptions) :
    Attribute.find? new.attributes pool exceptionsName =
      Attribute.find? old.attributes pool exceptionsName := by
  match operation with
  | .modifiers flags _ =>
      obtain rfl : new = _ := effect
      rfl
  | .exceptions names => exact absurd trivial apart
  | .attr name data =>
      obtain ⟨nameIndex, attributes, stands, put, rfl⟩ := effect
      have named (attr : Attribute) (selected : (attr.name == nameIndex) = true) :
          attr.isNamed pool exceptionsName = false := by
        refine isNamed_eq_false (Attribute.isNamed_iff.2 ?_) apart
        rwa [beq_iff_eq.1 selected]
      exact put.find?_of_ne named (named _ (beq_self_eq_true nameIndex))
  | .body change =>
      obtain ⟨attr, attributes, named, put, rfl⟩ := effect
      have different : Code.attributeName ≠ exceptionsName := by decide
      exact put.find?_of_ne (fun _ selected => isNamed_eq_false selected different)
        (isNamed_eq_false named different)

theorem find?_extended {attributes : List Attribute} {attr : Attribute} (filled : before.Filled)
    (extended : Pool.Extended before after) (stands : Attribute.find? attributes before name = some attr) :
    Attribute.find? attributes after name = some attr := by
  unfold Attribute.find? at stands ⊢
  have named := @List.find?_some Attribute (·.isNamed before name) _ _ stands
  have present := Attribute.isNamed_iff.1 named
  rw [← stands]
  refine Attribute.find?_congr fun other _ => ?_
  rw [Bool.eq_iff_iff, Attribute.isNamed_iff, Attribute.isNamed_iff]
  exact extended.textAt_iff filled present

theorem getElem?_withMethod_of_ne {other : Nat} (different : other ≠ index) :
    (editor.withMethod other new).file.methods[index]? = editor.file.methods[index]? :=
  Array.getElem?_setIfInBounds_ne different

theorem Declares.run (adds : compiler.Adds) (filled : editor.file.pool.Filled)
    (declares : Declares editor index classes names) {edit : Nat × Operation}
    (apart : edit.1 = index → ¬ edit.2.SetsExceptions)
    (done : outcome (edit.2.run compiler edit.1) editor = (.ok (), editor')) :
    Declares editor' index classes names := by
  obtain ⟨other, operation⟩ := edit
  obtain ⟨old, pool, new, found, extended, changed, rfl⟩ := outcome_run_eq_ok adds filled.sound done
  obtain ⟨method, attr, listed, stands, info⟩ := declares.listed
  have stands' := find?_extended filled extended stands
  refine ⟨?_, declares.named.imp fun _ _ => extended.classNameAt filled.sound⟩
  by_cases own : other = index
  · subst own
    cases Option.some.inj (found.symm.trans listed)
    have found : (editor.withPool pool).file.methods[other]? = some old := found
    exact ⟨new, attr, getElem?_withMethod found,
      (find?_exceptions_of_effect changed (apart rfl)).trans stands', info⟩
  · exact ⟨method, attr, (getElem?_withMethod_of_ne own).trans listed, stands', info⟩

theorem filled_run (adds : compiler.Adds) (filled : editor.file.pool.Filled) {operation : Operation}
    (done : outcome (operation.run compiler index) editor = (.ok (), editor')) :
    editor'.file.pool.Filled := by
  obtain ⟨_, _, _, _, extended, _, rfl⟩ := outcome_run_eq_ok adds filled.sound done
  exact extended.filled filled

theorem Declares.runAll (adds : compiler.Adds) (filled : editor.file.pool.Filled)
    (declares : Declares editor index classes names) {edits : List (Nat × Operation)}
    (apart : ∀ edit ∈ edits, edit.1 = index → ¬ edit.2.SetsExceptions)
    (done : outcome (runAll compiler edits) editor = (.ok (), editor')) :
    Declares editor' index classes names := by
  induction edits generalizing editor with
  | nil =>
      obtain ⟨_, rfl⟩ := outcome_pure_eq_ok.1 done
      exact declares
  | cons edit edits ih =>
      obtain ⟨first, rest⟩ := List.forall_mem_cons.1 apart
      obtain ⟨_, middle, ran, done⟩ := outcome_bind_eq_ok.1 done
      exact ih (filled_run adds filled ran) (declares.run adds filled first ran) rest done

theorem next_of_intern {constant : Pool.Constant} {reached : Pool.Index}
    (interned : outcome (Pool.intern constant) before = (.ok reached, after)) :
    after.next ≤ before.next + constant.width := by
  unfold outcome Pool.intern at interned
  split at interned
  · cases interned
    exact Nat.le_add_right _ _
  · split at interned
    · cases interned
      exact Nat.le_of_eq (Pool.next_push _ _)
    · cases interned

theorem exists_internClass (name : String) (room : pool.next + 2 ≤ Pool.capacity) : ∃ reached after,
    outcome (Pool.internClass name) pool = (.ok reached, after) ∧ after.next ≤ pool.next + 2 := by
  have first : pool.hasRoomFor (.text name) = true := decide_eq_true (show pool.next + 1 ≤ _ by omega)
  obtain ⟨text, middle, one⟩ := exists_intern first
  have short : middle.next ≤ pool.next + 1 := next_of_intern one
  have second : middle.hasRoomFor (.classRef text) = true :=
    decide_eq_true (show middle.next + 1 ≤ _ by omega)
  obtain ⟨reached, after, two⟩ := exists_intern second
  have short' : after.next ≤ middle.next + 1 := next_of_intern two
  exact ⟨reached, after, outcome_bind_eq_ok.2 ⟨text, middle, one, two⟩, by omega⟩

theorem exists_internClasses (accepted : ∀ name ∈ names, ∃ className, classNameOf name = .ok className)
    (room : pool.next + 2 * names.length ≤ Pool.capacity) : ∃ classes after,
      outcome (internClasses names) pool = (.ok classes, after) ∧
        after.next ≤ pool.next + 2 * names.length := by
  induction names generalizing pool with
  | nil => exact ⟨[], pool, rfl, Nat.le_refl _⟩
  | cons name names ih =>
      obtain ⟨⟨className, named⟩, rest⟩ := List.forall_mem_cons.1 accepted
      rw [List.length_cons] at room ⊢
      have one : pool.next + 2 ≤ Pool.capacity := by omega
      obtain ⟨first, middle, interned, short⟩ := exists_internClass className one
      have others : middle.next + 2 * names.length ≤ Pool.capacity := by omega
      obtain ⟨classes, after, others, short'⟩ := ih rest others
      refine ⟨first :: classes, after, ?_, by omega⟩
      refine outcome_bind_eq_ok.2 ⟨className, _, outcome_demandEdit_eq_ok.2 ⟨named, rfl⟩, ?_⟩
      refine outcome_bind_eq_ok.2 ⟨first, middle, outcome_adapt_eq_ok.2 interned, ?_⟩
      exact outcome_bind_eq_ok.2 ⟨classes, after, others, outcome_pure_eq_ok.2 ⟨rfl, rfl⟩⟩

theorem exists_setExceptionTypes (thawed : editor.frozen = false)
    (found : editor.file.methods[index]? = some method)
    (accepted : ∀ name ∈ names, ∃ className, classNameOf name = .ok className)
    (room : editor.file.pool.next + 2 * names.length + 1 ≤ Pool.capacity) :
    ∃ pool new, outcome (setExceptionTypes index (some names)) editor =
      (.ok (), (editor.withPool pool).withMethod index new) := by
  obtain ⟨classes, middle, interned, short⟩ := exists_internClasses accepted (Nat.le_of_succ_le room)
  have last : middle.hasRoomFor (.text exceptionsName) = true :=
    decide_eq_true (show middle.next + 1 ≤ _ by omega)
  obtain ⟨nameIndex, pool, named⟩ := exists_intern last
  let attr : Attribute := ⟨nameIndex, Binary.Writer.counted Binary.Writer.u16 classes⟩
  have made : outcome (Attribute.make exceptionsName attr.info) middle = (.ok attr, pool) :=
    outcome_bind_eq_ok.2 ⟨nameIndex, pool, named, rfl⟩
  refine ⟨pool, method.setAttribute pool exceptionsName attr, ?_⟩
  refine outcome_bind_eq_ok.2 ⟨(), _, outcome_requireThawed_eq_ok.2 ⟨thawed, rfl⟩, ?_⟩
  refine outcome_bind_eq_ok.2 ⟨method, _, outcome_methodAt_eq_ok.2 ⟨found, rfl⟩, ?_⟩
  refine outcome_bind_eq_ok.2 ⟨attr, editor.withPool pool, outcome_onPool_eq_ok.2 ⟨pool, ?_, rfl⟩, ?_⟩
  · exact outcome_bind_eq_ok.2 ⟨classes, middle, interned, outcome_adapt_eq_ok.2 made⟩
  · exact outcome_bind_eq_ok.2 ⟨_, _, outcome_get_eq_ok.2 ⟨rfl, rfl⟩, outcome_setMethod_eq_ok.2 rfl⟩

theorem declares_of_set (sound : editor.file.pool.Sound)
    (done : outcome (setExceptionTypes index (some names)) editor = (.ok (), editor')) :
    ∃ classes, Declares editor' index classes (names.map internalNameOf) := by
  unfold setExceptionTypes at done
  obtain ⟨_, _, step, done⟩ := outcome_bind_eq_ok.1 done
  obtain ⟨_, rfl⟩ := outcome_requireThawed_eq_ok.1 step
  obtain ⟨old, _, step, done⟩ := outcome_bind_eq_ok.1 done
  obtain ⟨found, rfl⟩ := outcome_methodAt_eq_ok.1 step
  obtain ⟨attr, _, step, done⟩ := outcome_bind_eq_ok.1 done
  obtain ⟨pool, made, rfl⟩ := outcome_onPool_eq_ok.1 step
  obtain ⟨classes, middle, interned, made⟩ := outcome_bind_eq_ok.1 made
  have made := outcome_adapt_eq_ok.1 made
  obtain ⟨_, _, step, done⟩ := outcome_bind_eq_ok.1 done
  obtain ⟨rfl, rfl⟩ := outcome_get_eq_ok.1 step
  obtain rfl := outcome_setMethod_eq_ok.1 done
  have sound' : middle.Sound := ((appends_internClasses names).extended interned).sound sound
  have extended := (appends_make _ _).extended made
  obtain ⟨named, info⟩ := outcome_make_eq_ok sound' made
  refine ⟨classes, ⟨_, attr, getElem?_withMethod found, find?_replace named, info⟩, ?_⟩
  have listed := (internClasses_eq_ok sound interned).flip
  exact List.forall₂_map_right_iff.2 (listed.imp fun _ _ => extended.classNameAt sound')

theorem exceptionTypes_of_removed {attributes : List Attribute} :
    exceptionTypes { old with attributes := attributes.filter (!·.isNamed pool exceptionsName) } pool =
      .ok none := by
  have missing : Attribute.find? (attributes.filter (!·.isNamed pool exceptionsName)) pool exceptionsName =
      none := by
    rw [Attribute.find?, List.find?_eq_none]
    intro attr member
    simpa using (List.mem_filter.1 member).2
  rw [exceptionTypes, missing]

/-- Exceptions that are declared for a method of a class are those that it has behind all further edits that
set no others, in their order and under internal names, if there are at most 65535 of them; else they cannot
be read back. A method has none where the declaration was dropped. -/
theorem exceptionTypes_of_set (adds : compiler.Adds) (filled : editor.file.pool.Filled) :
    (∀ names edits declared later,
      outcome (setExceptionTypes index (some names)) editor = (.ok (), declared) →
      (∀ edit ∈ edits, edit.1 = index → ¬ edit.2.SetsExceptions) →
      outcome (runAll compiler edits) declared = (.ok (), later) →
      ∃ method, later.file.methods[index]? = some method ∧ exceptionTypes method later.file.pool =
        if names.length ≤ 65535 then .ok (some (names.map internalNameOf))
        else .error (.badClass (.malformedAttribute exceptionsName))) ∧
    ∀ dropped, outcome (setExceptionTypes index none) editor = (.ok (), dropped) →
      ∃ method, dropped.file.methods[index]? = some method ∧
        exceptionTypes method dropped.file.pool = .ok none := by
  constructor
  · intro names edits declared later set apart done
    obtain ⟨classes, declares⟩ := declares_of_set filled.sound set
    have ran : outcome ((Operation.exceptions (some names)).run compiler index) editor =
      (.ok (), declared) := set
    have filled' := filled_run adds filled ran
    obtain ⟨method, found, reads⟩ := (declares.runAll adds filled' apart done).exceptionTypes
    rw [List.length_map] at reads
    exact ⟨method, found, reads⟩
  · intro dropped set
    have ran : outcome ((Operation.exceptions none).run compiler index) editor = (.ok (), dropped) := set
    obtain ⟨old, pool, new, found, extended, effect, rfl⟩ := outcome_run_eq_ok adds filled.sound ran
    obtain rfl : new = _ := effect
    have found : (editor.withPool pool).file.methods[index]? = some old := found
    exact ⟨_, getElem?_withMethod found, exceptionTypes_of_removed⟩

theorem exceptionTypes_of_set_modifiers : ∃ declared later method,
    outcome (setExceptionTypes 0 (some ["a.B"])) (smallClass Code.Cursor.loopBody.code) =
      (.ok (), declared) ∧
    outcome (runAll assemble [(0, .modifiers 0x1 rfl)]) declared = (.ok (), later) ∧
    later.file.methods[0]? = some method ∧ exceptionTypes method later.file.pool = .ok (some ["a/B"]) := by
  have accepted : ∀ name ∈ ["a.B"], ∃ className, classNameOf name = .ok className := by
    intro name member
    obtain rfl := List.mem_singleton.1 member
    exact ⟨"a/B", by cbv⟩
  have thawed : (smallClass Code.Cursor.loopBody.code).frozen = false := rfl
  have found : (smallClass Code.Cursor.loopBody.code).file.methods[0]? =
      some ⟨0x9, 3, 4, [⟨5, Code.Cursor.loopBody.code.write⟩]⟩ := rfl
  have room : (smallClass Code.Cursor.loopBody.code).file.pool.next + 2 * 1 + 1 ≤ Pool.capacity := by decide
  obtain ⟨pool, new, set⟩ := exists_setExceptionTypes thawed found accepted room
  have filled : (smallClass Code.Cursor.loopBody.code).file.pool.Filled :=
    Pool.filled_foldl_push (by decide)
  have apart : ∀ edit ∈ [((0 : Nat), Operation.modifiers 0x1 rfl)],
      edit.1 = 0 → ¬ edit.2.SetsExceptions := by
    simp [Operation.SetsExceptions]
  obtain ⟨method, found, reads⟩ := (exceptionTypes_of_set adds_assemble filled).1 _ _ _ _ set apart rfl
  refine ⟨_, _, method, set, rfl, found, reads.trans ?_⟩
  have spelled : internalNameOf "a.B" = "a/B" := by cbv
  simp [spelled]

end ClassSplice.Edit
