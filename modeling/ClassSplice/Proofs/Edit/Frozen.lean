import ClassSplice.Proofs.Edit.Operation

/-!
Frozen classes. A frozen class refuses every edit and stays as it was, and a class is frozen from when it
was written out or frozen until it is thawed (`session_frozen`). Edits that put a snippet into a body look
at the descriptor of the method and at the name of an exception before they find the class frozen, so that
they may be refused for these.
-/

namespace ClassSplice

namespace ClassFile

def Typed (file : ClassFile) (method : Member) : Prop :=
  (∃ type, method.methodType file.pool = .ok type) ∧ ∃ name, file.name = .ok name

theorem isCalled_iff {pool : Pool} {name : String} {descriptor : Option String} {method : Member} :
    isCalled pool name descriptor method = true ↔ method.nameText pool = .ok name ∧
      ∀ text, descriptor = some text → method.descriptorText pool = .ok text := by
  rw [isCalled, Bool.and_eq_true, beq_iff_eq, Pool.toOption_eq_some]
  cases descriptor with
  | none => simp
  | some text => simp [Pool.toOption_eq_some]

theorem findMethod_eq_some {file : ClassFile} {name : String} {descriptor : Option String}
    {index : Nat} : file.findMethod name descriptor = some index ↔
      ∀ other : Nat, (∃ method, file.methods[other]? = some method ∧
        isCalled file.pool name descriptor method = true) ↔ other = index := by
  unfold findMethod
  extract_lets called
  have member : ∀ other, other ∈ (List.range file.methods.size).filter called ↔
      ∃ method, file.methods[other]? = some method ∧
        isCalled file.pool name descriptor method = true := by
    intro other
    rw [List.mem_filter, List.mem_range]
    simp only [called]
    split
    · rename_i method stands
      simp only [stands, Option.some.injEq, exists_eq_left']
      exact and_iff_right (Array.getElem?_eq_some_iff.1 stands).1
    · rename_i missing
      simp [missing]
  have only : (List.range file.methods.size).filter called = [index] ↔
      ∀ other, other ∈ (List.range file.methods.size).filter called ↔ other = index := by
    constructor
    · intro same other
      rw [same, List.mem_singleton]
    · intro same
      refine List.perm_singleton.1 ((List.perm_ext_iff_of_nodup (List.nodup_range.filter _)
        (List.nodup_singleton _)).2 fun other => ?_)
      rw [same, List.mem_singleton]
  simp only [← member, ← only]
  split
  · rename_i place same
    simp [same]
  · rename_i several
    exact ⟨nofun, fun same => absurd same (several index)⟩

theorem findMethod_named {file : ClassFile} {name : String} {descriptor : Option String} {index : Nat}
    (found : file.findMethod name descriptor = some index) :
    ∃ method, file.methods[index]? = some method ∧ method.nameText file.pool = .ok name := by
  obtain ⟨method, stands, called⟩ := (findMethod_eq_some.1 found index).2 rfl
  exact ⟨method, stands, (isCalled_iff.1 called).1⟩

end ClassFile

namespace Edit

def Editor.label (editor : Editor) : String :=
  editor.file.name.toOption.getD "<unnamed>"

/-- What has to be in order for an operation to ask whether the class is frozen. -/
def Operation.Asks (file : ClassFile) (method : Member) : Operation → Prop
  | body (.before _) | body (.after _ _) => file.Typed method
  | body (.catching _ exceptionType _) =>
    file.Typed method ∧ ∃ caught, classNameOf exceptionType = .ok caught
  | body (.anew _) | modifiers .. | exceptions _ | attr .. => True

/-- A step fails and leaves the class as it was. It fails for the class being frozen just if it comes to
ask for that. -/
def Refuses {α : Type} (editor : Editor) (asked : Prop) (step : EditM α) : Prop :=
  ∃ fault, outcome step editor = (.error fault, editor) ∧ (fault = .frozen editor.label ↔ asked)

section Refusals

variable {α β : Type} {editor : Editor} {index : Nat} {method : Member} {asked asked' : Prop}

theorem Refuses.congr {step : EditM α} (refuses : Refuses editor asked step) (same : asked ↔ asked') :
    Refuses editor asked' step := by
  obtain ⟨fault, failed, why⟩ := refuses
  exact ⟨fault, failed, why.trans same⟩

theorem Refuses.behind {step : EditM α} {rest : α → EditM β} {value : α}
    (done : outcome step editor = (.ok value, editor)) (refuses : Refuses editor asked (rest value)) :
    Refuses editor asked (step >>= rest) := by
  obtain ⟨fault, failed, why⟩ := refuses
  refine ⟨fault, ?_, why⟩
  rw [outcome_bind, done]
  exact failed

theorem refuses_throw {fault : Fault} (other : fault ≠ .frozen editor.label) (never : ¬ asked) :
    Refuses editor asked (throw fault : EditM α) :=
  ⟨fault, rfl, iff_of_false other never⟩

theorem refuses_requireThawed (frozen : editor.frozen = true) (rest : Unit → EditM β) :
    Refuses editor True (requireThawed >>= rest) := by
  have thrown : outcome requireThawed editor = (.error (.frozen editor.label), editor) := by
    simp only [requireThawed, outcome_bind, outcome_get_eq_ok.2 ⟨rfl, rfl⟩, if_pos frozen]
    rfl
  refine ⟨.frozen editor.label, ?_, iff_of_true rfl trivial⟩
  rw [outcome_bind, thrown]

theorem refuses_require {result : Except Error α} {rest : α → EditM β}
    (each : ∀ value, result = .ok value → Refuses editor asked (rest value)) :
    Refuses editor ((∃ value, result = .ok value) ∧ asked) (require result >>= rest) := by
  cases result with
  | ok value => exact (each value rfl).congr (iff_and_self.2 fun _ => ⟨value, rfl⟩)
  | error error => exact ⟨.badClass error, rfl, iff_of_false nofun fun asked => nomatch asked.1⟩

theorem refuses_contextAt (found : editor.file.methods[index]? = some method)
    {rest : Context → EditM β} (each : ∀ context, Refuses editor asked (rest context)) :
    Refuses editor (editor.file.Typed method ∧ asked) (contextAt index >>= rest) := by
  unfold contextAt ClassFile.Typed
  rw [bind_assoc, and_assoc]
  refine .behind (outcome_methodAt_eq_ok.2 ⟨found, rfl⟩) ?_
  rw [bind_assoc]
  refine .behind (outcome_get_eq_ok.2 ⟨rfl, rfl⟩) ?_
  rw [bind_assoc]
  refine refuses_require fun type _ => ?_
  rw [bind_assoc]
  refine refuses_require fun owner _ => ?_
  rw [pure_bind]
  exact each _

theorem exists_outcome_isConstructor (found : editor.file.methods[index]? = some method) :
    ∃ answer, outcome (isConstructor index) editor = (.ok answer, editor) :=
  ⟨_, outcome_bind_eq_ok.2 ⟨method, editor, outcome_methodAt_eq_ok.2 ⟨found, rfl⟩,
    outcome_bind_eq_ok.2 ⟨editor, editor, outcome_get_eq_ok.2 ⟨rfl, rfl⟩, rfl⟩⟩⟩

theorem classNameOf_error {name : String} {fault : Fault} (failed : classNameOf name = .error fault) :
    fault = .badClassName name := by
  unfold classNameOf at failed
  split at failed <;> cases failed
  rfl

section Bodies

variable {compiler : Compiler} (frozen : editor.frozen = true)
  (found : editor.file.methods[index]? = some method)
include frozen

theorem refuses_patchBody (edit : Code → PoolEditM Code) : Refuses editor True (patchBody index edit) :=
  refuses_requireThawed frozen _

include found

theorem refuses_insertBefore (source : String) :
    Refuses editor (editor.file.Typed method) (insertBefore compiler index source) := by
  refine (refuses_contextAt found fun context => ?_).congr (and_iff_left trivial)
  exact refuses_patchBody frozen _

theorem refuses_insertAfter {name : String} (named : method.nameText editor.file.pool = .ok name)
    (source : String) (asFinally : Bool) :
    Refuses editor (editor.file.Typed method) (insertAfter compiler index source asFinally) := by
  obtain ⟨isConstructor, answered⟩ := exists_outcome_isConstructor found
  refine (refuses_contextAt found fun context => ?_).congr (and_iff_left trivial)
  refine .behind answered (.behind (outcome_methodAt_eq_ok.2 ⟨found, rfl⟩) ?_)
  refine .behind (outcome_get_eq_ok.2 ⟨rfl, rfl⟩) ?_
  exact .behind (outcome_require_eq_ok.2 ⟨named, rfl⟩) (refuses_patchBody frozen _)

theorem refuses_addCatch (source exceptionType name : String) :
    Refuses editor (editor.file.Typed method ∧ ∃ caught, classNameOf exceptionType = .ok caught)
      (addCatch compiler index source exceptionType name) := by
  obtain ⟨isConstructor, answered⟩ := exists_outcome_isConstructor found
  refine refuses_contextAt found fun context => .behind answered ?_
  split
  · rename_i fault failed
    refine refuses_throw ?_ fun ⟨caught, known⟩ => nomatch failed.symm.trans known
    rw [classNameOf_error failed]
    exact nofun
  · rename_i caught known
    exact (refuses_patchBody frozen _).congr (iff_of_true trivial ⟨caught, known⟩)

end Bodies

theorem Operation.refuses {compiler : Compiler} (frozen : editor.frozen = true)
    (found : editor.file.methods[index]? = some method) {name : String}
    (named : method.nameText editor.file.pool = .ok name) (operation : Operation) :
    Refuses editor (operation.Asks editor.file method) (operation.run compiler index) := by
  match operation with
  | modifiers .. | exceptions _ | attr .. | body (.anew _) => exact refuses_requireThawed frozen _
  | body (.before source) => exact refuses_insertBefore frozen found source
  | body (.after source asFinally) => exact refuses_insertAfter frozen found named source asFinally
  | body (.catching source exceptionType name) =>
      exact refuses_addCatch frozen found source exceptionType name

end Refusals

def KeepsFrozen {α : Type} (step : EditM α) : Prop :=
  ∀ editor, (outcome step editor).2.frozen = editor.frozen

section Keeping

variable {α β : Type} {index : Nat}

theorem OnlyAdds.keepsFrozen {step : EditM α} (adds : OnlyAdds step) : KeepsFrozen step := by
  intro editor
  obtain ⟨pool, _, same⟩ := adds editor
  rw [same]
  rfl

theorem keepsFrozen_onPool (step : PoolEditM α) : KeepsFrozen (onPool step) :=
  fun _ => rfl

theorem keepsFrozen_setMethod (method : Member) : KeepsFrozen (setMethod index method) :=
  fun _ => rfl

theorem KeepsFrozen.bind {step : EditM α} {rest : α → EditM β} (first : KeepsFrozen step)
    (each : ∀ value, KeepsFrozen (rest value)) : KeepsFrozen (step >>= rest) := by
  intro editor
  have kept := first editor
  rw [outcome_bind]
  rcases ran : outcome step editor with ⟨fault | value, middle⟩
  · rwa [ran] at kept
  · rw [ran] at kept
    exact (each value middle).trans kept

theorem keepsFrozen_patchBody (edit : Code → PoolEditM Code) : KeepsFrozen (patchBody index edit) := by
  refine onlyAdds_requireThawed.keepsFrozen.bind fun _ => (onlyAdds_methodAt index).keepsFrozen.bind ?_
  refine fun method => onlyAdds_get.keepsFrozen.bind fun _ => ?_
  refine (onlyAdds_require _).keepsFrozen.bind fun _ => (onlyAdds_require _).keepsFrozen.bind fun body => ?_
  cases body with
  | none => exact (onlyAdds_throw _).keepsFrozen
  | some code => exact (keepsFrozen_onPool _).bind fun _ => keepsFrozen_setMethod _

theorem Change.keepsFrozen (compiler : Compiler) (change : Change) :
    KeepsFrozen (change.runBy compiler index) := by
  have context := (onlyAdds_contextAt index).keepsFrozen
  have constructor := (onlyAdds_isConstructor index).keepsFrozen
  cases change with
  | before source => exact context.bind fun _ => keepsFrozen_patchBody _
  | after source asFinally =>
      refine context.bind fun _ => constructor.bind fun _ => (onlyAdds_methodAt index).keepsFrozen.bind ?_
      refine fun _ => onlyAdds_get.keepsFrozen.bind fun _ => (onlyAdds_require _).keepsFrozen.bind ?_
      exact fun _ => keepsFrozen_patchBody _
  | catching source exceptionType name =>
      refine context.bind fun _ => constructor.bind fun _ => ?_
      split
      · exact (onlyAdds_throw _).keepsFrozen
      · exact keepsFrozen_patchBody _
  | anew source =>
      refine onlyAdds_requireThawed.keepsFrozen.bind fun _ => context.bind fun _ => ?_
      refine (onlyAdds_methodAt index).keepsFrozen.bind fun _ => onlyAdds_get.keepsFrozen.bind fun _ => ?_
      exact (keepsFrozen_onPool _).bind fun _ => keepsFrozen_setMethod _

theorem Operation.keepsFrozen (compiler : Compiler) (operation : Operation) :
    KeepsFrozen (operation.run compiler index) := by
  have thawed := onlyAdds_requireThawed.keepsFrozen
  have method := (onlyAdds_methodAt index).keepsFrozen
  match operation with
  | modifiers _ _ => exact thawed.bind fun _ => method.bind fun _ => keepsFrozen_setMethod _
  | exceptions none =>
      exact thawed.bind fun _ => method.bind fun _ => onlyAdds_get.keepsFrozen.bind fun _ =>
        keepsFrozen_setMethod _
  | exceptions (some _) =>
      exact thawed.bind fun _ => method.bind fun _ => (keepsFrozen_onPool _).bind fun _ =>
        onlyAdds_get.keepsFrozen.bind fun _ => keepsFrozen_setMethod _
  | attr _ _ =>
      exact thawed.bind fun _ => method.bind fun _ => (keepsFrozen_onPool _).bind fun _ =>
        keepsFrozen_setMethod _
  | body change => exact change.keepsFrozen compiler

end Keeping

inductive Action where
  | freeze
  | thaw
  | toBytes
  | save
  | edit (compiler : Compiler) (index : Nat) (operation : Operation)

namespace Action

def run (editor : Editor) : Action → Editor
  | freeze => editor.freeze
  | thaw => editor.thaw
  | toBytes => editor.toBytes.2
  | save => editor.save.2
  | edit compiler index operation => (outcome (operation.run compiler index) editor).2

def Freezes : Action → Prop
  | freeze | toBytes | save => True
  | thaw | edit .. => False

end Action

def Editor.after (editor : Editor) (actions : List Action) : Editor :=
  actions.foldl Action.run editor

/-- The class was frozen or written out, and not thawed since. -/
def FrozenBy (actions : List Action) : Prop :=
  ∃ front action back, actions = front ++ action :: back ∧ action.Freezes ∧ Action.thaw ∉ back

section Sessions

variable {editor : Editor} {actions : List Action}

theorem not_frozenBy_nil : ¬ FrozenBy [] := by
  rintro ⟨front, action, back, same, _⟩
  cases front <;> cases same

theorem frozenBy_concat_iff {action : Action} :
    FrozenBy (actions ++ [action]) ↔ action.Freezes ∨ FrozenBy actions ∧ action ≠ .thaw := by
  constructor
  · rintro ⟨front, freezing, back, same, freezes, kept⟩
    rcases List.eq_nil_or_concat back with rfl | ⟨back, last, rfl⟩
    · obtain ⟨-, rfl⟩ := List.append_singleton_inj.1 same
      exact .inl freezes
    · rw [List.concat_eq_append] at same kept
      rw [← List.cons_append, ← List.append_assoc] at same
      obtain ⟨rfl, rfl⟩ := List.append_singleton_inj.1 same
      rw [List.mem_append, not_or, List.mem_singleton] at kept
      exact .inr ⟨⟨front, freezing, back, rfl, freezes, kept.1⟩, Ne.symm kept.2⟩
  · rintro (freezes | ⟨⟨front, freezing, back, rfl, freezes, kept⟩, other⟩)
    · exact ⟨actions, action, [], rfl, freezes, List.not_mem_nil⟩
    · refine ⟨front, freezing, back ++ [action], by simp, freezes, ?_⟩
      simpa [kept] using other.symm

theorem Action.frozen_run (action : Action) :
    (action.run editor).frozen = true ↔ action.Freezes ∨ editor.frozen = true ∧ action ≠ .thaw := by
  cases action with
  | freeze | toBytes | save => exact iff_of_true rfl (.inl trivial)
  | thaw => exact iff_of_false nofun fun frozen => frozen.elim nofun fun frozen => frozen.2 rfl
  | edit compiler index operation =>
      rw [Action.run, operation.keepsFrozen compiler editor]
      simp [Action.Freezes]

theorem Editor.frozen_after (thawed : editor.frozen = false) (actions : List Action) :
    (editor.after actions).frozen = true ↔ FrozenBy actions := by
  induction actions using List.reverseRecOn with
  | nil => exact iff_of_false (by simp [Editor.after, thawed]) not_frozenBy_nil
  | append_singleton actions action ih =>
      rw [frozenBy_concat_iff, ← ih, Editor.after, List.foldl_append]
      exact action.frozen_run

/-- A class is frozen from when it was frozen or written out until it is thawed. While it is frozen, every
operation on one of its methods fails and leaves the class as it was. -/
theorem session_frozen {file : ClassFile} (actions : List Action) (editor : Editor)
    (reached : (Editor.ofFile file).after actions = editor) :
    (editor.frozen = true ↔ FrozenBy actions) ∧
      (editor.frozen = true → ∀ name descriptor index, editor.findMethod name descriptor = .ok index →
        ∃ method, editor.file.methods[index]? = some method ∧
          ∀ (compiler : Compiler) (operation : Operation), ∃ fault,
            outcome (operation.run compiler index) editor = (.error fault, editor) ∧
            (fault = .frozen editor.label ↔ operation.Asks editor.file method)) := by
  subst reached
  refine ⟨Editor.frozen_after rfl actions, fun frozen name descriptor index found => ?_⟩
  unfold Editor.findMethod at found
  split at found
  · rename_i place found'
    cases found
    obtain ⟨method, stands, named⟩ := ClassFile.findMethod_named found'
    exact ⟨method, stands, fun compiler operation => operation.refuses frozen stands named⟩
  · cases found

theorem session_frozen_smallClass :
    ∃ editor, (smallClass Code.Cursor.loopBody.code).after [.thaw, .toBytes] = editor ∧
      editor.frozen = true ∧ editor.findMethod "m" none = .ok 0 ∧
      outcome ((Operation.body (.anew "nop")).run assemble 0) editor =
        (.error (.frozen editor.label), editor) ∧
      ∃ fault, fault ≠ .frozen editor.label ∧
        outcome ((Operation.body (.catching "athrow" "int" "e")).run assemble 0) editor =
          (.error fault, editor) := by
  obtain ⟨written, refused⟩ :=
    @session_frozen (smallClass Code.Cursor.loopBody.code).file [.thaw, .toBytes] _ rfl
  have frozen := written.2 ⟨[.thaw], .toBytes, [], rfl, trivial, List.not_mem_nil⟩
  have found : ((smallClass Code.Cursor.loopBody.code).after [.thaw, .toBytes]).findMethod "m" none =
      .ok 0 := by
    obtain ⟨indices, same⟩ := smallPool_eq
    simp only [smallClass, same]
    cbv
  obtain ⟨method, _, refused⟩ := refused frozen "m" none 0 found
  obtain ⟨fault, failed, why⟩ := refused assemble (.body (.anew "nop"))
  cases why.2 trivial
  obtain ⟨fault, failed', why⟩ := refused assemble (.body (.catching "athrow" "int" "e"))
  refine ⟨_, rfl, frozen, found, failed, fault, fun same => ?_, failed'⟩
  -- The name of a primitive type is not the name of a class.
  obtain ⟨_, caught, known⟩ := why.1 same
  have refusedName : classNameOf "int" = .error (.badClassName "int") := by cbv
  cases refusedName.symm.trans known

end Sessions

end Edit
end ClassSplice
