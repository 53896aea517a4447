import ClassSplice.ClassFile.Attribute
import ClassSplice.Proofs.Pool.Reached

/-!
Writing a pool and reading it back, whatever follows it in the file. The indices of constants are not
stored: they are found again from the constants alone, and so nothing that is asked for afterwards
tells the two pools apart.

Main statement: `reload_unobservable`.
-/

namespace ClassSplice.Pool

variable {pool : Pool}

inductive Call where
  | ask (request : Request)
  | makeAttribute (name : String) (info : List UInt8)
  | constant (index : Index)
  | text (index : Index)
  | className (index : Index)
  | checkClass (index : Index)
  | next
  | entries

inductive Answer where
  | index (result : Except Error Index)
  | madeAttribute (result : Except Error Attribute)
  | constant (result : Except Error Constant)
  | text (result : Except Error String)
  | next (index : Nat)
  | entries (entries : List (Index × Constant))

def Call.answer (pool : Pool) : Call → Answer × Pool
  | ask request => (outcome request.run pool).map .index id
  | makeAttribute name info => (outcome (Attribute.make name info) pool).map .madeAttribute id
  | constant index => (.constant (pool.get index), pool)
  | text index => (.text (pool.textAt index), pool)
  | className index => (.text (pool.classNameAt index), pool)
  | checkClass index => (.index (pool.checkClass index), pool)
  | next => (.next pool.next, pool)
  | entries => (.entries pool.entries, pool)

/-- What calls are answered one after another, and the pool that they leave. -/
def answers (pool : Pool) : List Call → List Answer × Pool
  | [] => ([], pool)
  | call :: calls =>
    let (answer, between) := call.answer pool
    let (further, after) := answers between calls
    (answer :: further, after)

theorem outcome_make (name : String) (info : List UInt8) :
    (outcome (Attribute.make name info) pool).2 = (outcome (Request.text name).run pool).2 := by
  rw [Attribute.make, outcome_bind, Request.run]
  rcases outcome (internText name) pool with ⟨error | index, after⟩
  · rfl
  · rfl

theorem Reached.answer (reached : pool.Reached) (call : Call) : (call.answer pool).2.Reached := by
  cases call with
  | ask request => exact reached.asked request
  | makeAttribute name info =>
      have asked := reached.asked (.text name)
      rwa [← outcome_make name info] at asked
  | constant | text | className | checkClass | next | entries => exact reached

theorem Reached.answers (reached : pool.Reached) (calls : List Call) :
    (pool.answers calls).2.Reached := by
  induction calls generalizing pool with
  | nil => exact reached
  | cons call calls ih => exact ih (reached.answer call)

theorem Filled.exists_write (filled : pool.Filled)
    (storable : ∀ constant ∈ pool.constants.toList, constant.Storable) :
    ∃ bytes, write pool = .ok bytes ∧ ∀ rest, read (bytes ++ rest) = .ok (pool, rest) := by
  obtain ⟨content, spelled⟩ := exists_spelled.2 storable
  refine ⟨_, write_eq_ok.2 ⟨content, spelled, rfl⟩, fun rest => ?_⟩
  -- What is read is filled from the same constants, so that the indices are found again as well.
  exact read_eq_ok.2 ⟨filled, _, content, spelled, rfl⟩

/-- A pool that has come about is written if its texts are short enough, and is read back up to what
follows it. The pool that is read has the same constants at the same indices, and answers all later
calls as the pool that was written does. -/
theorem reload_unobservable (reached : pool.Reached)
    (storable : ∀ constant ∈ pool.constants.toList, constant.Storable) (rest : List UInt8) :
    ∃ bytes reloaded, write pool = .ok bytes ∧ read (bytes ++ rest) = .ok (reloaded, rest) ∧
      reloaded.next = pool.next ∧ reloaded.entries = pool.entries ∧
      ∀ calls, reloaded.answers calls = pool.answers calls ∧ (pool.answers calls).2.Reached := by
  obtain ⟨bytes, written, done⟩ := reached.filled.exists_write storable
  exact ⟨bytes, pool, written, done rest, rfl, rfl, fun calls => ⟨rfl, reached.answers calls⟩⟩

theorem reload_unobservable_tinyPool : tinyPool.Reached ∧
    (∀ constant ∈ tinyPool.constants.toList, constant.Storable) ∧
    ∃ bytes reloaded, write tinyPool = .ok bytes ∧ read (bytes ++ [0]) = .ok (reloaded, [0]) ∧
      reloaded.next = tinyPool.next ∧ reloaded.entries = tinyPool.entries ∧
      ∀ calls, reloaded.answers calls = tinyPool.answers calls ∧
        (tinyPool.answers calls).2.Reached := by
  have storable : ∀ constant ∈ tinyPool.constants.toList, constant.Storable := by
    rw [tinyPool, toList_filled]
    simp only [List.forall_mem_cons]
    refine ⟨?_, nofun, nofun, nofun⟩
    rintro _ ⟨⟩
    decide
  exact ⟨reached_tinyPool, storable, reload_unobservable reached_tinyPool storable [0]⟩

end ClassSplice.Pool
