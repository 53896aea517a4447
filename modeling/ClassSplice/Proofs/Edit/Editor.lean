import ClassSplice.Edit.Editor
import ClassSplice.Proofs.Except

namespace ClassSplice.Edit

section Steps

variable {α : Type} {editor editor' : Editor} {pool pool' : Pool} {value : α}

theorem outcome_require_eq_ok {result : Except Error α} :
    outcome (require result) editor = (.ok value, editor') ↔ result = .ok value ∧ editor = editor' := by
  cases result with
  | ok found => exact outcome_pure_eq_ok.trans (by rw [Except.ok.injEq])
  | error error =>
      constructor
      · intro done
        exact absurd done outcome_throw_ne_ok
      · rintro ⟨⟨⟩, _⟩

theorem outcome_demandEdit_eq_ok {result : Except Fault α} :
    outcome (demandEdit result) pool = (.ok value, pool') ↔ result = .ok value ∧ pool = pool' := by
  cases result with
  | ok found => exact outcome_pure_eq_ok.trans (by rw [Except.ok.injEq])
  | error fault =>
      constructor
      · intro done
        exact absurd done outcome_throw_ne_ok
      · rintro ⟨⟨⟩, _⟩

theorem outcome_demand_eq_ok {result : Except Error α} :
    outcome (demand result) pool = (.ok value, pool') ↔ result = .ok value ∧ pool = pool' := by
  cases result with
  | ok found => exact outcome_pure_eq_ok.trans (by rw [Except.ok.injEq])
  | error error =>
      constructor
      · intro done
        exact absurd done outcome_throw_ne_ok
      · rintro ⟨⟨⟩, _⟩

theorem outcome_adapt_eq_ok {ε : Type} {wrap : ε → Fault} {step : ExceptT ε (StateM Pool) α} :
    outcome (ExceptT.adapt wrap step) pool = (.ok value, pool') ↔
      outcome step pool = (.ok value, pool') := by
  show outcome (fun pool => (Prod.map (Except.mapError wrap) id (outcome step pool))) pool = _ ↔ _
  show Prod.map (Except.mapError wrap) id (outcome step pool) = _ ↔ _
  rcases outcome step pool with ⟨error | found, pool₁⟩
  · constructor
    · rintro ⟨⟩
    · rintro ⟨⟩
  · constructor
    · rintro ⟨⟩
      rfl
    · rintro ⟨⟩
      rfl

theorem outcome_onPool_eq_ok {step : PoolEditM α} :
    outcome (onPool step) editor = (.ok value, editor') ↔
      ∃ pool', outcome step editor.file.pool = (.ok value, pool') ∧
        editor' = { editor with file := { editor.file with pool := pool' } } := by
  show ((outcome step editor.file.pool).1,
    { editor with file := { editor.file with pool := (outcome step editor.file.pool).2 } }) = _ ↔ _
  rcases outcome step editor.file.pool with ⟨result, pool₁⟩
  simp only [Prod.mk.injEq]
  constructor
  · rintro ⟨rfl, rfl⟩
    exact ⟨pool₁, ⟨rfl, rfl⟩, rfl⟩
  · rintro ⟨pool', ⟨rfl, rfl⟩, rfl⟩
    exact ⟨rfl, rfl⟩

theorem outcome_requireThawed_eq_ok {value : Unit} :
    outcome requireThawed editor = (.ok value, editor') ↔ editor.frozen = false ∧ editor = editor' := by
  simp only [requireThawed, outcome_bind_eq_ok, outcome_get_eq_ok]
  cases frozen : editor.frozen with
  | false =>
      constructor
      · rintro ⟨_, _, ⟨rfl, rfl⟩, done⟩
        rw [if_neg (by simp [frozen])] at done
        exact ⟨rfl, (outcome_pure_eq_ok.1 done).2⟩
      · rintro ⟨_, rfl⟩
        refine ⟨_, _, ⟨rfl, rfl⟩, ?_⟩
        rw [if_neg (by simp [frozen])]
        rfl
  | true =>
      constructor
      · rintro ⟨_, _, ⟨rfl, rfl⟩, done⟩
        rw [if_pos frozen] at done
        exact absurd done outcome_throw_ne_ok
      · rintro ⟨⟨⟩, _⟩

theorem outcome_methodAt_eq_ok {index : Nat} {method : Member} :
    outcome (methodAt index) editor = (.ok method, editor') ↔
      editor.file.methods[index]? = some method ∧ editor = editor' := by
  simp only [methodAt, outcome_bind_eq_ok, outcome_get_eq_ok]
  constructor
  · rintro ⟨_, _, ⟨rfl, rfl⟩, done⟩
    split at done
    · rename_i found
      obtain ⟨rfl, rfl⟩ := outcome_pure_eq_ok.1 done
      exact ⟨found, rfl⟩
    · exact absurd done outcome_throw_ne_ok
  · rintro ⟨found, rfl⟩
    refine ⟨_, _, ⟨rfl, rfl⟩, ?_⟩
    rw [found]
    rfl

theorem outcome_setMethod_eq_ok {index : Nat} {method : Member} {value : Unit} :
    outcome (setMethod index method) editor = (.ok value, editor') ↔
      { editor with file := { editor.file with
        methods := editor.file.methods.setIfInBounds index method } } = editor' :=
  outcome_modify_eq_ok

end Steps

/-- One body of a method was put in place of another, with a pool for its constants. -/
structure Replaced (before after : Editor) (index : Nat) (code code' : Code) (pool : Pool) : Prop where
  thawed : before.frozen = false
  sound : checkBody code' before.file.version = .ok ()
  stored : ∃ method name method' pool', before.file.methods[index]? = some method ∧
    method.nameText before.file.pool = .ok name ∧
    method.code before.file.pool = .ok (some code) ∧
    outcome (method.setCode (code'.withoutFrames pool)) pool = (.ok method', pool') ∧
    { before with file := { before.file with
      pool := pool'
      methods := before.file.methods.setIfInBounds index method' } } = after

theorem outcome_patchBody_eq_ok {editor editor' : Editor} {index : Nat}
    {edit : Code → PoolEditM Code} :
    outcome (patchBody index edit) editor = (.ok (), editor') ↔
      ∃ code code' pool, outcome (edit code) editor.file.pool = (.ok code', pool) ∧
        Replaced editor editor' index code code' pool := by
  constructor
  · intro done
    unfold patchBody at done
    obtain ⟨_, _, step, done⟩ := outcome_bind_eq_ok.1 done
    obtain ⟨thawed, rfl⟩ := outcome_requireThawed_eq_ok.1 step
    obtain ⟨method, _, step, done⟩ := outcome_bind_eq_ok.1 done
    obtain ⟨found, rfl⟩ := outcome_methodAt_eq_ok.1 step
    obtain ⟨_, _, step, done⟩ := outcome_bind_eq_ok.1 done
    obtain ⟨rfl, rfl⟩ := outcome_get_eq_ok.1 step
    obtain ⟨name, _, step, done⟩ := outcome_bind_eq_ok.1 done
    obtain ⟨named, rfl⟩ := outcome_require_eq_ok.1 step
    obtain ⟨body, _, step, done⟩ := outcome_bind_eq_ok.1 done
    obtain ⟨read, rfl⟩ := outcome_require_eq_ok.1 step
    cases body with
    | none => exact absurd done outcome_throw_ne_ok
    | some code =>
        obtain ⟨method', _, step, done⟩ := outcome_bind_eq_ok.1 done
        obtain ⟨pool', ran, rfl⟩ := outcome_onPool_eq_ok.1 step
        obtain ⟨code', pool, edited, ran⟩ := outcome_bind_eq_ok.1 ran
        obtain ⟨_, _, step, ran⟩ := outcome_bind_eq_ok.1 ran
        obtain ⟨sound, rfl⟩ := outcome_demandEdit_eq_ok.1 step
        obtain ⟨_, _, step, ran⟩ := outcome_bind_eq_ok.1 ran
        obtain ⟨rfl, rfl⟩ := outcome_get_eq_ok.1 step
        have stored := outcome_adapt_eq_ok.1 ran
        have finished := outcome_setMethod_eq_ok.1 done
        exact ⟨code, code', _, edited, thawed, sound, method, name, method', pool', found, named,
          read, stored, finished⟩
  · rintro ⟨code, code', pool, edited, thawed, sound, method, name, method', pool', found, named,
      read, stored, finished⟩
    unfold patchBody
    refine outcome_bind_eq_ok.2 ⟨(), _, outcome_requireThawed_eq_ok.2 ⟨thawed, rfl⟩, ?_⟩
    refine outcome_bind_eq_ok.2 ⟨_, _, outcome_methodAt_eq_ok.2 ⟨found, rfl⟩, ?_⟩
    refine outcome_bind_eq_ok.2 ⟨_, _, outcome_get_eq_ok.2 ⟨rfl, rfl⟩, ?_⟩
    refine outcome_bind_eq_ok.2 ⟨_, _, outcome_require_eq_ok.2 ⟨named, rfl⟩, ?_⟩
    refine outcome_bind_eq_ok.2 ⟨_, _, outcome_require_eq_ok.2 ⟨read, rfl⟩, ?_⟩
    refine outcome_bind_eq_ok.2 ⟨method', _, outcome_onPool_eq_ok.2 ⟨pool', ?_, rfl⟩, ?_⟩
    · refine outcome_bind_eq_ok.2 ⟨_, _, edited, ?_⟩
      refine outcome_bind_eq_ok.2 ⟨(), _, outcome_demandEdit_eq_ok.2 ⟨sound, rfl⟩, ?_⟩
      refine outcome_bind_eq_ok.2 ⟨_, _, outcome_get_eq_ok.2 ⟨rfl, rfl⟩, ?_⟩
      exact outcome_adapt_eq_ok.2 stored
    · exact outcome_setMethod_eq_ok.2 finished

theorem exists_intern {constant : Pool.Constant} {pool : Pool}
    (room : pool.hasRoomFor constant = true) :
    ∃ index pool', outcome (Pool.intern constant) pool = (.ok index, pool') := by
  unfold outcome Pool.intern
  cases pool.indices[constant]? with
  | some index => exact ⟨index, pool, rfl⟩
  | none => exact ⟨_, _, if_pos room⟩

theorem exists_setCode (method : Member) (code : Code) {pool : Pool}
    (room : pool.hasRoomFor (.text Code.attributeName) = true) :
    ∃ method' pool', outcome (method.setCode code) pool = (.ok method', pool') := by
  obtain ⟨index, pool', interned⟩ := exists_intern room
  refine ⟨method.setAttribute pool' Code.attributeName ⟨index, code.write⟩, pool',
    outcome_bind_eq_ok.2 ⟨⟨index, code.write⟩, pool', ?_, ?_⟩⟩
  · exact outcome_bind_eq_ok.2 ⟨index, pool', interned, rfl⟩
  · exact outcome_bind_eq_ok.2 ⟨pool', pool', outcome_get_eq_ok.2 ⟨rfl, rfl⟩, rfl⟩

def smallPool : Pool :=
  [.text "C", .classRef 1, .text "m", .text "()V", .text Code.attributeName].foldl Pool.push .empty

def smallClass (body : Code) : Editor where
  file :=
    { version := ⟨50, 0⟩
      pool := smallPool
      flags := 0x21
      thisClass := 2
      superClass := 0
      interfaces := []
      fields := []
      methods := #[⟨0x9, 3, 4, [⟨5, body.write⟩]⟩]
      attributes := [] }
  frozen := false

theorem smallPool_eq : ∃ indices, smallPool = ⟨⟨#[(1, .text "C"), (2, .classRef 1), (3, .text "m"),
    (4, .text "()V"), (5, .text Code.attributeName)], 6⟩, indices⟩ :=
  ⟨_, rfl⟩

theorem textAt_smallPool :
    smallPool.textAt 3 = .ok "m" ∧ smallPool.textAt 5 = .ok Code.attributeName := by
  obtain ⟨indices, same⟩ := smallPool_eq
  rw [same]
  constructor
  · cbv
  · cbv

theorem code_smallClass {body : Code} (read : Code.parse body.write smallPool = .ok body) :
    (⟨0x9, 3, 4, [⟨5, body.write⟩]⟩ : Member).code smallPool = .ok (some body) := by
  have found : Attribute.find? [⟨5, body.write⟩] smallPool Code.attributeName =
      some ⟨5, body.write⟩ := by
    simp [Attribute.find?, Attribute.isNamed, textAt_smallPool.2]
  simp only [Member.code, found, read]
  rfl

theorem replaced_smallClass {body code code' : Code} {editor' : Editor} {pool : Pool}
    (read : Code.parse body.write smallPool = .ok body)
    (replaced : Replaced (smallClass body) editor' 0 code code' pool) : code = body := by
  obtain ⟨_, _, _, _, found, _, held, _⟩ := replaced.stored
  cases found
  cases (code_smallClass read).symm.trans held
  rfl

theorem exists_patched {body code : Code} {edit : Code → PoolEditM Code}
    (read : Code.parse body.write smallPool = .ok body)
    (edited : outcome (edit body) smallPool = (.ok code, smallPool))
    (sound : checkBody code ⟨50, 0⟩ = .ok ()) :
    ∃ editor', outcome (patchBody 0 edit) (smallClass body) = (.ok (), editor') := by
  obtain ⟨method', pool', stored⟩ := exists_setCode ⟨0x9, 3, 4, [⟨5, body.write⟩]⟩
    (code.withoutFrames smallPool) (show smallPool.hasRoomFor _ = true from rfl)
  refine ⟨_, outcome_patchBody_eq_ok.2 ⟨body, code, smallPool, edited, rfl, sound, _, "m", method',
    pool', rfl, textAt_smallPool.1, code_smallClass read, stored, rfl⟩⟩

end ClassSplice.Edit
