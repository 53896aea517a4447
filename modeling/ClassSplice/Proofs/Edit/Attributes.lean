import ClassSplice.Proofs.Edit.Session
import ClassSplice.Proofs.Pool.Interning

namespace ClassSplice

namespace Pool

variable {pool before after : Pool} {constant : Constant} {index other : Index} {text text' : String}

/-- Of the indices at which a text stands, the pool hands out this one. -/
def IsFirst (pool : Pool) (index : Index) (text : String) : Prop :=
  pool.textAt index = .ok text ∧ ∀ other, pool.textAt other = .ok text → index ≤ other

theorem textAt_eq_ok : pool.textAt index = .ok text ↔ pool.get index = .ok (.text text) := by
  rw [textAt, bind_eq_ok]
  constructor
  · rintro ⟨constant, got, same⟩
    split at same
    · cases same
      exact got
    · cases same
  · intro got
    exact ⟨_, got, rfl⟩

theorem textAt_push (sound : pool.Sound) (room : pool.hasRoomFor constant = true) :
    (pool.push constant).textAt index = .ok text ↔
      pool.textAt index = .ok text ∨ index.toNat = pool.next ∧ constant = .text text := by
  rw [textAt_eq_ok, textAt_eq_ok, get_eq_ok (sound.push room), get_eq_ok sound, entries_push,
    Array.mem_push, Prod.mk.injEq]
  exact or_congr_right (and_congr_right fun _ => eq_comm)

theorem Extended.textAt_iff (extended : Extended before after) (filled : before.Filled)
    (present : before.textAt index = .ok text) :
    after.textAt other = .ok text ↔ before.textAt other = .ok text := by
  induction extended with
  | refl => rfl
  | @push after constant extended room missing ih =>
      have filled' := extended.filled filled
      have present' := extended.textAt filled.sound present
      rw [textAt_push filled'.sound room, ih]
      refine or_iff_left ?_
      rintro ⟨_, rfl⟩
      exact Unknown.get_ne missing filled' index (textAt_eq_ok.1 present')

theorem internText_cases (interned : outcome (internText text) before = (.ok index, after)) :
    (after = before ∧ before.Known index (.text text)) ∨
    (before.Unknown (.text text) ∧ before.hasRoomFor (.text text) = true ∧
      after = before.push (.text text) ∧ index = UInt16.ofNat before.next) := by
  unfold outcome internText intern at interned
  split at interned
  · rename_i known
    cases interned
    exact .inl ⟨rfl, known⟩
  · rename_i missing
    split at interned
    · rename_i room
      cases interned
      exact .inr ⟨missing, room, rfl, rfl⟩
    · cases interned

section Interned

variable (filled : before.Filled) (interned : outcome (internText text) before = (.ok index, after))

include filled interned

theorem isFirst_internText : after.IsFirst index text := by
  have filled' := ((appends_internText text).extended interned).filled filled
  have known := known_of_intern interned
  refine ⟨textAt_eq_ok.2 (known.get filled'.sound), ?_⟩
  intro other stands
  exact known.first filled' (textAt_eq_ok.1 stands)

theorem textAt_internText_of_ne (different : text' ≠ text) :
    after.textAt other = .ok text' ↔ before.textAt other = .ok text' := by
  rcases internText_cases interned with ⟨rfl, _⟩ | ⟨_, room, rfl, _⟩
  · rfl
  · rw [textAt_push filled.sound room]
    refine or_iff_left ?_
    rintro ⟨_, same⟩
    cases same
    exact different rfl

theorem textAt_internText :
    after.textAt other = .ok text ↔ before.textAt other = .ok text ∨ other = index := by
  have first := (isFirst_internText filled interned).1
  rcases internText_cases interned with ⟨rfl, _⟩ | ⟨_, room, rfl, rfl⟩
  · refine (or_iff_left_of_imp ?_).symm
    rintro rfl
    exact first
  · have short : before.next < UInt16.size := Nat.lt_succ_of_le filled.room
    rw [textAt_push filled.sound room, ← UInt16.toNat_inj, UInt16.toNat_ofNat_of_lt' short]
    simp

theorem textAt_of_present (present : before.textAt other = .ok text) : before.textAt index = .ok text := by
  rcases internText_cases interned with ⟨_, known⟩ | ⟨missing, _⟩
  · exact textAt_eq_ok.2 (known.get filled.sound)
  · exact absurd (textAt_eq_ok.1 present) (missing.get_ne filled other)

end Interned
end Pool

namespace Attribute

variable {selected wanted named : Attribute → Bool} {new : Attribute} {attributes attributes' : List Attribute}
  {attr : Attribute} {pool : Pool} {name : String}

theorem isNamed_iff : attr.isNamed pool name = true ↔ pool.textAt attr.name = .ok name := by
  unfold isNamed
  split
  · rename_i text stands
    rw [stands, Except.ok.injEq, beq_iff_eq]
  · rename_i stands
    simp [stands]

theorem find?_congr (alike : ∀ attr ∈ attributes, wanted attr = named attr) :
    attributes.find? wanted = attributes.find? named := by
  induction attributes with
  | nil => rfl
  | cons attr attributes ih =>
      obtain ⟨first, rest⟩ := List.forall_mem_cons.1 alike
      rw [List.find?_cons, List.find?_cons, first, ih rest]

theorem Put.find?_of_ne (put : Put selected new attributes attributes')
    (apart : ∀ attr, selected attr = true → wanted attr = false) (unwanted : wanted new = false) :
    attributes'.find? wanted = attributes.find? wanted := by
  cases put with
  | replaced skipped first => simp [List.find?_append, apart _ first, unwanted]
  | added missing => simp [unwanted]

theorem Put.length_eq (put : Put selected new attributes attributes') :
    attributes'.length = attributes.length ∧ (∃ attr ∈ attributes, selected attr = true) ∨
      attributes'.length = attributes.length + 1 ∧ ∀ attr ∈ attributes, selected attr = false := by
  cases put with
  | replaced skipped first =>
      refine .inl ⟨by simp, _, ?_, first⟩
      exact List.mem_append_right _ List.mem_cons_self
  | added missing => exact .inr ⟨by simp, missing⟩

/-- An attribute is put in place of the first that is selected, but looked up among all that are named. It
is what is found exactly if the first that is named was selected, or held the same. -/
theorem Put.contents_iff (put : Put selected new attributes attributes') (own : wanted new = true)
    (wanted_iff : ∀ attr, wanted attr = true ↔ named attr = true ∨ selected attr = true)
    (unnamed : (∃ attr ∈ attributes, named attr = true) → ∀ attr, selected attr = true → named attr = true) :
    (attributes'.find? wanted).map info = some new.info ↔
      ∀ attr, attributes.find? named = some attr → selected attr = true ∨ attr.info = new.info := by
  have alike {front : List Attribute} (skipped : ∀ attr ∈ front, selected attr = false) :
      front.find? wanted = front.find? named := by
    refine find?_congr fun attr member => ?_
    rw [Bool.eq_iff_iff, wanted_iff, skipped attr member]
    simp
  -- Only in front of where it was put can another one be found.
  have behind {front back : List Attribute} (skipped : ∀ attr ∈ front, selected attr = false)
      {rest : List Attribute} (afterwards : front.find? named = none →
        ∀ attr, rest.find? named = some attr → selected attr = true) :
      ((front ++ new :: back).find? wanted).map info = some new.info ↔
        ∀ attr, (front ++ rest).find? named = some attr → selected attr = true ∨ attr.info = new.info := by
    rw [List.find?_append, List.find?_append, alike skipped, List.find?_cons, own]
    cases found : front.find? named with
    | none =>
        simp only [Option.none_or, Option.map_some, true_iff]
        exact fun attr stands => .inl (afterwards found attr stands)
    | some attr =>
        have unselected := skipped attr (List.mem_of_find?_eq_some found)
        simp [unselected]
  cases put with
  | @replaced front back old skipped first =>
      refine behind skipped fun _ attr stands => ?_
      by_cases ownName : named old = true
      · rw [List.find?_cons, ownName] at stands
        cases stands
        exact first
      · -- The name is new to the pool, so that no attribute goes by it.
        have member := List.mem_of_find?_eq_some stands
        have present : ∃ attr ∈ front ++ old :: back, named attr = true :=
          ⟨attr, List.mem_append_right _ member, List.find?_some stands⟩
        exact absurd (unnamed present old first) ownName
  | added missing =>
      have whole := @behind _ [] missing [] fun _ _ => nofun
      rwa [List.append_nil] at whole

end Attribute

namespace Edit

variable {compiler : Compiler} {read editor editor' : Editor} {index : Nat} {name : String}
  {data : List UInt8}

theorem getElem?_withMethod {old new : Member} (found : editor.file.methods[index]? = some old) :
    (editor.withMethod index new).file.methods[index]? = some new :=
  Array.getElem?_setIfInBounds_self_of_lt (Array.getElem?_eq_some_iff.1 found).1

theorem outcome_setAttribute (done : outcome (setAttribute index name data) editor = (.ok (), editor')) :
    ∃ old pool nameIndex attributes, editor.file.methods[index]? = some old ∧
      outcome (Pool.internText name) editor.file.pool = (.ok nameIndex, pool) ∧
      Attribute.Put (·.name == nameIndex) ⟨nameIndex, data⟩ old.attributes attributes ∧
      editor' = (editor.withPool pool).withMethod index { old with attributes } := by
  unfold setAttribute at done
  obtain ⟨_, _, step, done⟩ := outcome_bind_eq_ok.1 done
  obtain ⟨_, rfl⟩ := outcome_requireThawed_eq_ok.1 step
  obtain ⟨old, _, step, done⟩ := outcome_bind_eq_ok.1 done
  obtain ⟨found, rfl⟩ := outcome_methodAt_eq_ok.1 step
  obtain ⟨nameIndex, _, step, done⟩ := outcome_bind_eq_ok.1 done
  obtain ⟨pool, interned, rfl⟩ := outcome_onPool_eq_ok.1 step
  have stored := outcome_setMethod_eq_ok.1 done
  exact ⟨old, pool, nameIndex, _, found, outcome_adapt_eq_ok.1 interned, Attribute.put_findIdx? _ _ _,
    stored.symm⟩

section Set

variable {old : Member} {pool : Pool} {nameIndex : Pool.Index} {attributes : List Attribute}
  (filled : editor.file.pool.Filled)
  (interned : outcome (Pool.internText name) editor.file.pool = (.ok nameIndex, pool))
  (put : Attribute.Put (·.name == nameIndex) ⟨nameIndex, data⟩ old.attributes attributes)

include filled interned

theorem isNamed_internText_of_ne {other : String} (different : other ≠ name) (attr : Attribute) :
    attr.isNamed pool other = attr.isNamed editor.file.pool other := by
  rw [Bool.eq_iff_iff, Attribute.isNamed_iff, Attribute.isNamed_iff]
  exact Pool.textAt_internText_of_ne filled interned different

theorem isNamed_internText (attr : Attribute) : attr.isNamed pool name = true ↔
    attr.isNamed editor.file.pool name = true ∨ (attr.name == nameIndex) = true := by
  rw [Attribute.isNamed_iff, Attribute.isNamed_iff, beq_iff_eq]
  exact Pool.textAt_internText filled interned

include put

theorem attributeContents_of_ne {other : String} (different : other ≠ name) :
    attributeContents { old with attributes } pool other = attributeContents old editor.file.pool other := by
  have first := (Pool.isFirst_internText filled interned).1
  have apart (attr : Attribute) (selected : (attr.name == nameIndex) = true) :
      attr.isNamed pool other = false := by
    rw [← Bool.not_eq_true, Attribute.isNamed_iff, beq_iff_eq.1 selected, first, Except.ok.injEq]
    exact different.symm
  unfold attributeContents Attribute.find?
  rw [put.find?_of_ne apart (apart _ (beq_self_eq_true nameIndex))]
  rw [Attribute.find?_congr fun attr _ => isNamed_internText_of_ne filled interned different attr]

theorem attributeContents_iff : attributeContents { old with attributes } pool name = some data ↔
    ∀ attr, Attribute.find? old.attributes editor.file.pool name = some attr →
      attr.name = nameIndex ∨ attr.info = data := by
  have own := (isNamed_internText filled interned ⟨nameIndex, data⟩).2 (.inr (beq_self_eq_true nameIndex))
  refine (put.contents_iff own (isNamed_internText filled interned) ?_).trans ?_
  · rintro ⟨attr, _, named⟩ attr' selected
    rw [Attribute.isNamed_iff, beq_iff_eq.1 selected]
    exact Pool.textAt_of_present filled interned (Attribute.isNamed_iff.1 named)
  · simp only [beq_iff_eq]
    rfl

end Set

/-- An attribute is set in a class that was read, and edited since. Those of other names are as they were.
The name finds what was set, exactly if what it found before goes by the index that the pool hands out for
the name, or held the same. One more attribute where the name was in use comes of a name that is in use under
other indices only. -/
theorem setAttribute_contents {bytes : List UInt8} {edits : List (Nat × Operation)} (adds : compiler.Adds)
    (parsed : Editor.parse bytes = .ok read)
    (edited : outcome (runAll compiler edits) read = (.ok (), editor))
    (done : outcome (setAttribute index name data) editor = (.ok (), editor')) :
    ∃ old new nameIndex, editor.file.methods[index]? = some old ∧ editor'.file.methods[index]? = some new ∧
      editor'.file.pool.IsFirst nameIndex name ∧
      (∀ other, other ≠ name →
        attributeContents new editor'.file.pool other = attributeContents old editor.file.pool other) ∧
      (attributeContents new editor'.file.pool name = some data ↔
        ∀ attr, Attribute.find? old.attributes editor.file.pool name = some attr →
          attr.name = nameIndex ∨ attr.info = data) ∧
      (new.attributes.length = old.attributes.length ∨
        new.attributes.length = old.attributes.length + 1) ∧
      ((new.attributes.length = old.attributes.length + 1 →
          attributeContents old editor.file.pool name = none) ↔
        (attributeContents old editor.file.pool name ≠ none →
          ∃ attr ∈ old.attributes, attr.name = nameIndex)) := by
  obtain ⟨file, fileRead, rfl⟩ := map_eq_ok.1 parsed
  have regular := ClassFile.regular_of_parse (checked_eq_ok.1 fileRead)
  have filled := (regular_runAll adds regular edited).filled
  obtain ⟨old, pool, nameIndex, attributes, found, interned, put, rfl⟩ := outcome_setAttribute done
  refine ⟨old, { old with attributes }, nameIndex, found, getElem?_withMethod found,
    Pool.isFirst_internText filled interned, ?_, attributeContents_iff filled interned put, ?_, ?_⟩
  · intro other different
    exact attributeContents_of_ne filled interned put different
  · exact put.length_eq.imp And.left And.left
  · rcases put.length_eq with ⟨same, attr, member, selected⟩ | ⟨more, none⟩
    · have kept : attributes.length ≠ old.attributes.length + 1 := by omega
      simp only [kept, false_implies, true_iff]
      exact fun _ => ⟨attr, member, beq_iff_eq.1 selected⟩
    · have absent : ¬ ∃ attr ∈ old.attributes, attr.name = nameIndex := by
        rintro ⟨attr, member, same⟩
        exact beq_eq_false_iff_ne.1 (none attr member) same
      simp only [more, absent, true_implies, imp_false, not_not]

theorem exists_setAttribute (body : Code) (name : String) (data : List UInt8) :
    ∃ editor', outcome (setAttribute 0 name data) (smallClass body) = (.ok (), editor') := by
  obtain ⟨nameIndex, pool, known⟩ := exists_intern (show smallPool.hasRoomFor (.text name) = true from rfl)
  have named : outcome (onPool (interned (Pool.internText name))) (smallClass body) =
      (.ok nameIndex, (smallClass body).withPool pool) :=
    outcome_onPool_eq_ok.2 ⟨pool, outcome_adapt_eq_ok.2 known, rfl⟩
  exact ⟨_, outcome_bind_eq_ok.2 ⟨(), _, outcome_requireThawed_eq_ok.2 ⟨rfl, rfl⟩,
    outcome_bind_eq_ok.2 ⟨_, _, outcome_methodAt_eq_ok.2 ⟨rfl, rfl⟩,
      outcome_bind_eq_ok.2 ⟨nameIndex, _, named, outcome_setMethod_eq_ok.2 rfl⟩⟩⟩⟩

theorem setAttribute_contents_new : ∃ editor' new,
    Editor.parse smallBytes = .ok (smallClass Code.Cursor.loopBody.code) ∧
    outcome (setAttribute 0 "Z" [42]) (smallClass Code.Cursor.loopBody.code) = (.ok (), editor') ∧
    editor'.file.methods[0]? = some new ∧ attributeContents new editor'.file.pool "Z" = some [42] ∧
    attributeContents new editor'.file.pool Code.attributeName = some Code.Cursor.loopBody.code.write := by
  obtain ⟨editor', done⟩ := exists_setAttribute Code.Cursor.loopBody.code "Z" [42]
  have unedited : outcome (runAll assemble []) (smallClass Code.Cursor.loopBody.code) =
      (.ok (), smallClass Code.Cursor.loopBody.code) := rfl
  obtain ⟨old, new, nameIndex, found, stored, _, others, contents, _⟩ :=
    setAttribute_contents adds_assemble parse_smallBytes unedited done
  cases Option.some.inj found
  have named : (⟨5, Code.Cursor.loopBody.code.write⟩ : Attribute).isNamed smallPool Code.attributeName = true :=
    Attribute.isNamed_iff.2 textAt_smallPool.2
  have absent : (⟨5, Code.Cursor.loopBody.code.write⟩ : Attribute).isNamed smallPool "Z" = false := by
    rw [← Bool.not_eq_true, Attribute.isNamed_iff, textAt_smallPool.2]
    decide
  refine ⟨editor', new, parse_smallBytes, done, stored, contents.2 ?_, (others _ (by decide)).trans ?_⟩
  · simp [Attribute.find?, smallClass, absent]
  · simp [attributeContents, Attribute.find?, smallClass, named]

end Edit
end ClassSplice
