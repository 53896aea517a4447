import ClassSplice.Edit.Declaration
import ClassSplice.Proofs.Edit.Stored
import ClassSplice.Proofs.Pool.Codec
import ClassSplice.Proofs.Pool.Interning

namespace ClassSplice

open Pool (Appends)

/-! ## What edits may change -/

/-- Constants were added to a pool, behind those that it held and that stand where they stood. -/
structure Pool.Grown (before after : Pool) : Prop where
  added : ∃ added : List Constant, after = added.foldl push before
  keeps : ∀ {index : Index} {constant : Constant}, before.get index = .ok constant →
    after.get index = .ok constant

theorem Pool.Extended.grown {before after : Pool} (extended : Extended before after)
    (sound : before.Sound) : Grown before after := by
  refine ⟨?_, extended.get sound⟩
  induction extended with
  | refl => exact ⟨[], rfl⟩
  | @push after constant _ _ _ ih =>
      obtain ⟨added, rfl⟩ := ih
      exact ⟨added ++ [constant], by rw [List.foldl_append]; rfl⟩

def Member.Renewed (pool : Pool) (name : String) (old new : Member) : Prop :=
  ∃ attr attributes, attr.isNamed pool name = true ∧
    Attribute.Put (·.isNamed pool name) attr old.attributes attributes ∧ new = { old with attributes }

namespace Edit

def Editor.withPool (editor : Editor) (pool : Pool) : Editor :=
  { editor with file := { editor.file with pool } }

def Editor.withMethod (editor : Editor) (index : Nat) (method : Member) : Editor :=
  { editor with file := { editor.file with
      methods := editor.file.methods.setIfInBounds index method } }

inductive Edited (before : Editor) (index : Nat) (effect : Pool → Member → Prop) :
    Except Fault Unit × Editor → Prop
  | failed {pool : Pool} {fault : Fault} (extended : Pool.Extended before.file.pool pool) :
      Edited before index effect (.error fault, before.withPool pool)
  | done {pool : Pool} {new : Member} (extended : Pool.Extended before.file.pool pool)
      (changed : effect pool new) :
      Edited before index effect (.ok (), (before.withPool pool).withMethod index new)

def Finds {α : Type} (index : Nat) (step : EditM α) : Prop :=
  ∀ (before after : Editor) (value : α), outcome step before = (.ok value, after) →
    ∃ old, before.file.methods[index]? = some old

def Edits (index : Nat) (old : Member) (effect : Pool → Member → Prop) (edit : EditM Unit) : Prop :=
  ∀ editor : Editor, editor.file.pool.Sound → editor.file.methods[index]? = some old →
    Edited editor index effect (outcome edit editor)

def OnlyAdds {α : Type} (step : EditM α) : Prop :=
  ∀ editor, ∃ pool, Pool.Extended editor.file.pool pool ∧
    (outcome step editor).2 = editor.withPool pool

structure Gives {α : Type} (step : PoolEditM α) (post : Pool → α → Prop) : Prop where
  appends : Appends step
  given : ∀ {before after : Pool} {value : α}, before.Sound →
    outcome step before = (.ok value, after) → post after value

section Rules

variable {α β : Type} {index : Nat} {old : Member} {effect : Pool → Member → Prop}

/-! ## Steps that only add constants -/

theorem onlyAdds_of_stays {step : EditM α} (stays : ∀ editor, (outcome step editor).2 = editor) :
    OnlyAdds step :=
  fun editor => ⟨editor.file.pool, .refl, stays editor⟩

theorem onlyAdds_throw (fault : Fault) : OnlyAdds (throw fault : EditM α) :=
  onlyAdds_of_stays fun _ => rfl

theorem onlyAdds_pure (value : α) : OnlyAdds (pure value : EditM α) :=
  onlyAdds_of_stays fun _ => rfl

theorem onlyAdds_get : OnlyAdds (get : EditM Editor) :=
  onlyAdds_of_stays fun _ => rfl

theorem OnlyAdds.bind {step : EditM α} {rest : α → EditM β} (first : OnlyAdds step)
    (each : ∀ value, OnlyAdds (rest value)) : OnlyAdds (step >>= rest) := by
  intro editor
  obtain ⟨pool, extended, same⟩ := first editor
  rw [outcome_bind]
  rcases ran : outcome step editor with ⟨fault | value, middle⟩
  · rw [ran] at same
    exact ⟨pool, extended, same⟩
  · obtain rfl : middle = editor.withPool pool := by rw [← same, ran]
    obtain ⟨pool', extended', same⟩ := each value (editor.withPool pool)
    exact ⟨pool', extended.trans extended', same⟩

theorem onlyAdds_require (result : Except Error α) : OnlyAdds (require result) := by
  cases result with
  | ok value => exact onlyAdds_pure value
  | error error => exact onlyAdds_throw _

theorem onlyAdds_requireThawed : OnlyAdds requireThawed := by
  refine onlyAdds_get.bind fun editor => ?_
  split
  · exact onlyAdds_throw _
  · exact onlyAdds_pure _

theorem onlyAdds_methodAt (index : Nat) : OnlyAdds (methodAt index) := by
  refine onlyAdds_get.bind fun editor => ?_
  split
  · exact onlyAdds_pure _
  · exact onlyAdds_throw _

theorem onlyAdds_contextAt (index : Nat) : OnlyAdds (contextAt index) :=
  (onlyAdds_methodAt index).bind fun _ => onlyAdds_get.bind fun _ => (onlyAdds_require _).bind fun _ =>
    (onlyAdds_require _).bind fun _ => onlyAdds_pure _

theorem onlyAdds_isConstructor (index : Nat) : OnlyAdds (isConstructor index) :=
  (onlyAdds_methodAt index).bind fun _ => onlyAdds_get.bind fun _ => onlyAdds_pure _

/-! ## Steps that need the method -/

theorem finds_methodAt (index : Nat) : Finds index (methodAt index) :=
  fun _ _ _ done => ⟨_, (outcome_methodAt_eq_ok.1 done).1⟩

theorem Finds.bind {step : EditM α} (finds : Finds index step) (rest : α → EditM β) :
    Finds index (step >>= rest) := by
  intro before after value done
  obtain ⟨_, _, ran, _⟩ := outcome_bind_eq_ok.1 done
  exact finds _ _ _ ran

theorem OnlyAdds.finds {step : EditM α} {rest : α → EditM β} (first : OnlyAdds step)
    (each : ∀ value, Finds index (rest value)) : Finds index (step >>= rest) := by
  intro before after value done
  obtain ⟨given, middle, ran, done⟩ := outcome_bind_eq_ok.1 done
  obtain ⟨pool, _, same⟩ := first before
  obtain rfl : middle = before.withPool pool := by rw [← same, ran]
  exact each given (before.withPool pool) after value done

/-! ## Edits, step by step -/

theorem edits_throw (fault : Fault) : Edits index old effect (throw fault) :=
  fun _ _ _ => .failed .refl

theorem Edited.behind {editor : Editor} {pool : Pool} {result : Except Fault Unit × Editor}
    (extended : Pool.Extended editor.file.pool pool)
    (edited : Edited (editor.withPool pool) index effect result) : Edited editor index effect result := by
  cases edited with
  | failed extended' => exact .failed (extended.trans extended')
  | done extended' changed => exact .done (extended.trans extended') changed

theorem OnlyAdds.edits {step : EditM α} {rest : α → EditM Unit} (first : OnlyAdds step)
    (each : ∀ value, Edits index old effect (rest value)) : Edits index old effect (step >>= rest) := by
  intro editor sound found
  obtain ⟨pool, extended, same⟩ := first editor
  rw [outcome_bind]
  rcases ran : outcome step editor with ⟨fault | value, middle⟩
  · obtain rfl : middle = editor.withPool pool := by rw [← same, ran]
    exact .failed extended
  · -- The rest of the edit runs on the class with the pool that the step has left.
    obtain rfl : middle = editor.withPool pool := by rw [← same, ran]
    exact Edited.behind extended (each value _ (extended.sound sound) found)

theorem edits_methodAt {rest : Member → EditM Unit} (edits : Edits index old effect (rest old)) :
    Edits index old effect (methodAt index >>= rest) := by
  intro editor sound found
  rw [outcome_bind, outcome_methodAt_eq_ok.2 ⟨found, rfl⟩]
  exact edits editor sound found

theorem edits_end {edit : EditM Unit}
    (ends : ∀ editor, ∃ new, outcome edit editor = (.ok (), editor.withMethod index new) ∧
      effect editor.file.pool new) : Edits index old effect edit := by
  intro editor _ _
  obtain ⟨new, ended, changed⟩ := ends editor
  rw [ended]
  exact .done .refl changed

theorem outcome_onPool (step : PoolEditM α) (editor : Editor) :
    outcome (onPool step) editor =
      ((outcome step editor.file.pool).1, editor.withPool (outcome step editor.file.pool).2) :=
  rfl

theorem edits_onPool {step : PoolEditM α} {rest : α → EditM Unit} {post : Pool → α → Prop}
    (gives : Gives step post)
    (ends : ∀ value editor, post editor.file.pool value →
      ∃ new, outcome (rest value) editor = (.ok (), editor.withMethod index new) ∧
        effect editor.file.pool new) :
    Edits index old effect (onPool step >>= rest) := by
  intro editor sound _
  have extended := gives.appends editor.file.pool
  rw [outcome_bind, outcome_onPool]
  rcases result : outcome step editor.file.pool with ⟨fault | value, pool⟩
  · rw [result] at extended
    exact .failed extended
  · rw [result] at extended
    obtain ⟨new, ended, changed⟩ := ends value (editor.withPool pool) (gives.given sound result)
    dsimp only
    rw [ended]
    exact .done extended changed

theorem Gives.bind {step : PoolEditM α} {rest : α → PoolEditM β} {post : Pool → β → Prop}
    (first : Appends step) (each : ∀ value, Gives (rest value) post) : Gives (step >>= rest) post where
  appends := first.bind fun value => (each value).appends
  given sound done := by
    obtain ⟨value, middle, ran, done⟩ := outcome_bind_eq_ok.1 done
    exact (each value).given ((first.extended ran).sound sound) done

end Rules

/-! ## Operations -/

def Change.runBy (compiler : Compiler) : Change → Nat → EditM Unit
  | before source, index => insertBefore compiler index source
  | after source asFinally, index => insertAfter compiler index source asFinally
  | catching source exceptionType name, index => addCatch compiler index source exceptionType name
  | anew source, index => setBody compiler index source

def Change.flags (flags : UInt16) : Change → UInt16
  | anew _ => Flags.clear flags (Flags.abstract ||| Flags.native)
  | _ => flags

inductive Operation where
  | modifiers (flags : UInt16) (known : flags &&& Flags.ofMethod = flags)
  | exceptions (names : Option (List String))
  | attr (name : String) (data : List UInt8)
  | body (change : Change)

namespace Operation

def run (compiler : Compiler) (index : Nat) : Operation → EditM Unit
  | modifiers flags _ => setModifiers index flags
  | exceptions names => setExceptionTypes index names
  | attr name data => setAttribute index name data
  | body change => change.runBy compiler index

/-- What an operation that succeeds makes of a method. Attributes are named as in the pool that it
leaves, where an index that had no constant behind it may have come to be a name. -/
def Effect (old : Member) (pool : Pool) (new : Member) : Operation → Prop
  | modifiers flags _ => new = { old with flags }
  | exceptions none =>
    new = { old with attributes := old.attributes.filter (!·.isNamed pool exceptionsName) }
  | exceptions (some _) => old.Renewed pool exceptionsName new
  | attr name data => ∃ nameIndex attributes, pool.textAt nameIndex = .ok name ∧
      Attribute.Put (·.name == nameIndex) ⟨nameIndex, data⟩ old.attributes attributes ∧
      new = { old with attributes }
  | body change =>
    Member.Renewed pool Code.attributeName { old with flags := change.flags old.flags } new

end Operation

section Operations

variable {compiler : Compiler} {index : Nat} {old : Member}

theorem edits_setModifiers (flags : UInt16) :
    Edits index old (fun _ new => new = { old with flags }) (setModifiers index flags) :=
  onlyAdds_requireThawed.edits fun _ => edits_methodAt (edits_end fun _ => ⟨_, rfl, rfl⟩)

/-! ### Attributes -/

theorem gives_make (name : String) (info : List UInt8) :
    Gives (interned (Attribute.make name info)) fun pool attr => attr.isNamed pool name = true :=
  ⟨appends_interned (appends_make name info),
    fun sound done => (outcome_make_eq_ok sound (outcome_adapt_eq_ok.1 done)).1⟩

theorem renewed_setAttribute {pool : Pool} {name : String} {attr : Attribute} (method : Member)
    (named : attr.isNamed pool name = true) :
    method.Renewed pool name (method.setAttribute pool name attr) :=
  ⟨attr, _, named, Attribute.put_findIdx? _ _ _, rfl⟩

theorem appends_internClasses (names : List String) : Appends (internClasses names) := by
  induction names with
  | nil => exact Pool.appends_pure _
  | cons name names ih =>
      exact (appends_demandEdit _).bind fun _ =>
        (appends_interned (Pool.appends_internClass _)).bind fun _ => ih.bind fun _ => Pool.appends_pure _

theorem edits_removeExceptions :
    Edits index old
      (fun pool new =>
        new = { old with attributes := old.attributes.filter (!·.isNamed pool exceptionsName) })
      (setExceptionTypes index none) :=
  onlyAdds_requireThawed.edits fun _ => edits_methodAt (edits_end fun _ => ⟨_, rfl, rfl⟩)

theorem edits_setExceptions (names : List String) :
    Edits index old (fun pool new => old.Renewed pool exceptionsName new)
      (setExceptionTypes index (some names)) := by
  refine onlyAdds_requireThawed.edits fun _ => edits_methodAt ?_
  refine edits_onPool (.bind (appends_internClasses names) fun _ => gives_make _ _) ?_
  exact fun attr editor named => ⟨_, rfl, renewed_setAttribute old named⟩

theorem edits_setAttribute (name : String) (data : List UInt8) :
    Edits index old (fun pool new => (Operation.attr name data).Effect old pool new)
      (setAttribute index name data) := by
  have gives : Gives (interned (Pool.internText name)) fun pool nameIndex =>
      pool.textAt nameIndex = .ok name := by
    refine ⟨appends_interned (Pool.appends_internText name), ?_⟩
    intro before after nameIndex sound done
    exact Pool.textAt_of_internText sound (outcome_adapt_eq_ok.1 done)
  refine onlyAdds_requireThawed.edits fun _ => edits_methodAt (edits_onPool gives ?_)
  exact fun nameIndex editor named =>
    ⟨_, rfl, nameIndex, _, named, Attribute.put_findIdx? _ _ _, rfl⟩

/-! ### Bodies -/

theorem gives_setCode (method : Member) (code : Code) :
    Gives (interned (method.setCode code)) fun pool new => method.Renewed pool Code.attributeName new := by
  refine ⟨appends_interned ?_, ?_⟩
  · exact (appends_make _ _).bind fun _ => Pool.appends_get.bind fun _ => Pool.appends_pure _
  · intro before after new sound done
    obtain ⟨attr, _, made, done⟩ := outcome_bind_eq_ok.1 (outcome_adapt_eq_ok.1 done)
    obtain ⟨_, _, got, done⟩ := outcome_bind_eq_ok.1 done
    obtain ⟨rfl, rfl⟩ := outcome_get_eq_ok.1 got
    obtain ⟨rfl, rfl⟩ := outcome_pure_eq_ok.1 done
    exact renewed_setAttribute method (outcome_make_eq_ok sound made).1

theorem edits_patchBody {edit : Code → PoolEditM Code} (appends : ∀ code, Appends (edit code)) :
    Edits index old (fun pool new => old.Renewed pool Code.attributeName new) (patchBody index edit) := by
  refine onlyAdds_requireThawed.edits fun _ => edits_methodAt ?_
  refine onlyAdds_get.edits fun _ => (onlyAdds_require _).edits fun _ => ?_
  refine (onlyAdds_require _).edits fun body => ?_
  cases body with
  | none => exact edits_throw _
  | some code =>
      refine edits_onPool (?_ : Gives _ fun pool new => old.Renewed pool Code.attributeName new)
        fun new editor renewed => ⟨_, rfl, renewed⟩
      exact .bind (appends code) fun _ => .bind (appends_demandEdit _) fun _ =>
        .bind Pool.appends_get fun _ => gives_setCode old _

theorem edits_insertBefore (adds : compiler.Adds) (source : String) :
    Edits index old (fun pool new => old.Renewed pool Code.attributeName new)
      (insertBefore compiler index source) := by
  refine (onlyAdds_contextAt index).edits fun context => edits_patchBody fun code => ?_
  exact (appends_compileWith adds _ _ _).bind fun _ => (appends_demand _).bind fun _ =>
    (appends_demand _).bind fun _ => (appends_demand _).bind fun _ => Pool.appends_pure _

theorem edits_insertAfter (adds : compiler.Adds) (source : String) (asFinally : Bool) :
    Edits index old (fun pool new => old.Renewed pool Code.attributeName new)
      (insertAfter compiler index source asFinally) := by
  refine (onlyAdds_contextAt index).edits fun context => (onlyAdds_isConstructor index).edits fun _ => ?_
  refine (onlyAdds_methodAt index).edits fun _ => onlyAdds_get.edits fun _ => ?_
  refine (onlyAdds_require _).edits fun _ => edits_patchBody fun code => ?_
  exact Pool.appends_get.bind fun _ => (appends_demandEdit _).bind fun _ =>
    (appends_compileAfter adds _ _ _ _).bind fun _ => (appends_demand _).bind fun _ =>
      (appends_demand _).bind fun _ => Pool.appends_pure _

theorem edits_addCatch (adds : compiler.Adds) (source exceptionType name : String) :
    Edits index old (fun pool new => old.Renewed pool Code.attributeName new)
      (addCatch compiler index source exceptionType name) := by
  refine (onlyAdds_contextAt index).edits fun context => (onlyAdds_isConstructor index).edits fun _ => ?_
  split
  · exact edits_throw _
  · refine edits_patchBody fun code => ?_
    exact Pool.appends_get.bind fun _ => (appends_demandEdit _).bind fun _ =>
      (appends_demand _).bind fun _ => (appends_demand _).bind fun _ =>
        (appends_compileWith adds _ _ _).bind fun _ => (appends_demand _).bind fun _ =>
          (appends_interned (Pool.appends_internClass _)).bind fun _ => (appends_demand _).bind fun _ =>
            (appends_demand _).bind fun _ => (appends_demand _).bind fun _ => Pool.appends_pure _

theorem edits_setBody (adds : compiler.Adds) (source : String) :
    Edits index old (fun pool new => Member.Renewed pool Code.attributeName
        { old with flags := (Change.anew source).flags old.flags } new) (setBody compiler index source) := by
  refine onlyAdds_requireThawed.edits fun _ => (onlyAdds_contextAt index).edits fun context => ?_
  refine edits_methodAt (onlyAdds_get.edits fun editor => ?_)
  -- The body is put into the method with its old flags; they are changed when the method is stored.
  refine edits_onPool (?_ : Gives _ fun pool new => old.Renewed pool Code.attributeName new) ?_
  · refine .bind (appends_compileWith adds _ _ _) fun buffer => ?_
    dsimp only
    split
    · refine .bind (appends_demand _) fun _ => .bind (appends_demand _) fun _ => ?_
      exact .bind (appends_demandEdit _) fun _ => gives_setCode old _
    · refine .bind (Pool.appends_pure _) fun _ => .bind (appends_demand _) fun _ => ?_
      exact .bind (appends_demandEdit _) fun _ => gives_setCode old _
  · rintro _ editor ⟨attr, attributes, named, put, rfl⟩
    exact ⟨_, rfl, attr, attributes, named, put, rfl⟩

theorem edits_runBy (adds : compiler.Adds) (change : Change) :
    Edits index old (fun pool new => Member.Renewed pool Code.attributeName
      { old with flags := change.flags old.flags } new) (change.runBy compiler index) := by
  cases change with
  | before source => exact edits_insertBefore adds source
  | after source asFinally => exact edits_insertAfter adds source asFinally
  | catching source exceptionType name => exact edits_addCatch adds source exceptionType name
  | anew source => exact edits_setBody adds source

theorem Operation.edits (adds : compiler.Adds) (operation : Operation) :
    Edits index old (fun pool new => operation.Effect old pool new) (operation.run compiler index) := by
  match operation with
  | modifiers flags _ => exact edits_setModifiers flags
  | exceptions none => exact edits_removeExceptions
  | exceptions (some names) => exact edits_setExceptions names
  | attr name data => exact edits_setAttribute name data
  | body change => exact edits_runBy adds change

theorem Operation.finds (compiler : Compiler) (index : Nat) (operation : Operation) :
    Finds index (operation.run compiler index) := by
  have context : Finds index (contextAt index) := (finds_methodAt index).bind _
  match operation with
  | modifiers flags _ => exact onlyAdds_requireThawed.finds fun _ => (finds_methodAt index).bind _
  | exceptions names => exact onlyAdds_requireThawed.finds fun _ => (finds_methodAt index).bind _
  | attr name data => exact onlyAdds_requireThawed.finds fun _ => (finds_methodAt index).bind _
  | body (.before source) => exact context.bind _
  | body (.after source asFinally) => exact context.bind _
  | body (.catching source exceptionType name) => exact context.bind _
  | body (.anew source) => exact onlyAdds_requireThawed.finds fun _ => context.bind _

/-- An edit that fails leaves a class as it was, but for constants added to its pool. One that succeeds
also changes its method, as the operation says. -/
theorem run_changes {editor : Editor} (adds : compiler.Adds) (filled : editor.file.pool.Filled)
    (found : editor.file.methods[index]? = some old) (operation : Operation) :
    ∃ pool, editor.file.pool.Grown pool ∧ match outcome (operation.run compiler index) editor with
      | (.error _, after) => after = editor.withPool pool
      | (.ok (), after) => ∃ new, operation.Effect old pool new ∧
          after = (editor.withPool pool).withMethod index new := by
  have sound := filled.sound
  have edited := operation.edits adds editor sound found
  generalize outcome (operation.run compiler index) editor = result at edited
  cases edited with
  | failed extended => exact ⟨_, extended.grown sound, rfl⟩
  | done extended changed => exact ⟨_, extended.grown sound, _, changed, rfl⟩

/-! ### A class with two methods -/

def pairConstants : List Pool.Constant :=
  [.text "C", .classRef 1, .text "m", .text "()V", .text Code.attributeName, .text "X", .text "n"]

def pairPool : Pool :=
  pairConstants.foldl Pool.push .empty

def pairMethod : Member :=
  ⟨0x9, 3, 4, [⟨6, [0xca, 0xfe]⟩, ⟨5, Code.Cursor.loopBody.code.write⟩]⟩

def pairClass : Editor :=
  { smallClass Code.Cursor.loopBody.code with file :=
    { (smallClass Code.Cursor.loopBody.code).file with
      pool := pairPool
      methods := #[pairMethod, ⟨0x401, 7, 4, [⟨6, [0xfe]⟩]⟩] } }

theorem contextAt_pairClass :
    outcome (contextAt 0) pairClass = (.ok ⟨"C", ⟨[], none⟩, true⟩, pairClass) := by
  obtain ⟨indices, same⟩ : ∃ indices, pairPool = ⟨⟨#[(1, .text "C"), (2, .classRef 1), (3, .text "m"),
    (4, .text "()V"), (5, .text Code.attributeName), (6, .text "X"), (7, .text "n")], 8⟩, indices⟩ :=
    ⟨_, rfl⟩
  simp only [pairClass, smallClass, same]
  cbv

theorem exists_setBody_pairClass :
    ∃ after, outcome ((Operation.body (.anew spinSource)).run assemble 0) pairClass = (.ok (), after) := by
  obtain ⟨method', pool', stored⟩ := exists_setCode pairMethod spinCode
    (show pairPool.hasRoomFor _ = true from rfl)
  have compiled := compileWith_spin (show Assembler.assembled? spinStatements [] (.empty 0 0) pairPool =
    some (spinBuffer, pairPool.constants) by decide +kernel)
  exact ⟨_, outcome_setBody_spin rfl rfl contextAt_pairClass rfl compiled stored⟩

theorem internClass_pairPool : outcome (Pool.internClass "A") pairPool =
    (.ok 9, (pairPool.push (.text "A")).push (.classRef 8)) := by
  have text : outcome (Pool.internText "A") pairPool = (.ok 8, pairPool.push (.text "A")) :=
    Pool.intern_of_missing (Pool.unknown_foldl_push (by decide)) rfl
  have missing : (pairPool.push (.text "A")).Unknown (.classRef 8) :=
    (Pool.unknown_foldl_push (by decide)).push (by decide)
  exact outcome_bind_eq_ok.2 ⟨_, _, text, Pool.intern_of_missing missing rfl⟩

theorem refused_exceptions_pairClass : ∃ after,
    outcome ((Operation.exceptions (some ["A", "int"])).run assemble 0) pairClass =
      (.error (.badClassName "int"), after) := by
  have named : classNameOf "A" = .ok "A" := by cbv
  have primitive : classNameOf "int" = .error (.badClassName "int") := by cbv
  have refused : outcome (internClasses ["A", "int"]) pairClass.file.pool =
      (.error (.badClassName "int"), (pairPool.push (.text "A")).push (.classRef 8)) := by
    refine outcome_bind_eq_error.2 (.inr ⟨"A", _, outcome_demandEdit_eq_ok.2 ⟨named, rfl⟩, ?_⟩)
    refine outcome_bind_eq_error.2
      (.inr ⟨9, _, outcome_adapt_eq_ok.2 internClass_pairPool, ?_⟩)
    refine outcome_bind_eq_error.2 (.inl (outcome_bind_eq_error.2 (.inl ?_)))
    rw [primitive]
    rfl
  have failed : outcome (onPool do
      let classes ← internClasses ["A", "int"]
      interned (Attribute.make exceptionsName (Binary.Writer.counted Binary.Writer.u16 classes))) pairClass =
      (.error (.badClassName "int"),
        pairClass.withPool ((pairPool.push (.text "A")).push (.classRef 8))) := by
    rw [outcome_onPool, outcome_bind_eq_error.2 (.inl refused)]
  refine ⟨pairClass.withPool ((pairPool.push (.text "A")).push (.classRef 8)), ?_⟩
  refine outcome_bind_eq_error.2 (.inr ⟨(), _, outcome_requireThawed_eq_ok.2 ⟨rfl, rfl⟩, ?_⟩)
  exact outcome_bind_eq_error.2 (.inr ⟨pairMethod, _, outcome_methodAt_eq_ok.2 ⟨rfl, rfl⟩,
    outcome_bind_eq_error.2 (.inl failed)⟩)

theorem run_changes_pair : (∃ pool after new, pairPool.Grown pool ∧
      outcome ((Operation.body (.anew spinSource)).run assemble 0) pairClass = (.ok (), after) ∧
      (Operation.body (.anew spinSource)).Effect pairMethod pool new ∧
      after = (pairClass.withPool pool).withMethod 0 new) ∧
    ∃ pool, pairPool.Grown pool ∧
      outcome ((Operation.exceptions (some ["A", "int"])).run assemble 0) pairClass =
        (.error (.badClassName "int"), pairClass.withPool pool) := by
  have filled : pairClass.file.pool.Filled := Pool.filled_foldl_push (by decide)
  have found : pairClass.file.methods[0]? = some pairMethod := rfl
  constructor
  · obtain ⟨after, done⟩ := exists_setBody_pairClass
    obtain ⟨pool, grown, changes⟩ := run_changes adds_assemble filled found (.body (.anew spinSource))
    rw [done] at changes
    obtain ⟨new, changed, same⟩ := changes
    exact ⟨pool, after, new, grown, done, changed, same⟩
  · obtain ⟨after, refused⟩ := refused_exceptions_pairClass
    obtain ⟨pool, grown, changes⟩ :=
      run_changes adds_assemble filled found (.exceptions (some ["A", "int"]))
    rw [refused] at changes
    obtain rfl : after = pairClass.withPool pool := changes
    exact ⟨pool, grown, refused⟩

end Operations

end Edit
end ClassSplice
