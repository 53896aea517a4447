import ClassSplice.Pool.Codec
import ClassSplice.Proofs.Except
import ClassSplice.Proofs.OffsetTable

namespace ClassSplice.Pool

/-- Constants stand at increasing indices below the next one, and a constant that is looked up is
found where it stands. -/
structure Sound (pool : Pool) : Prop where
  increasing : pool.constants.Increasing
  bounded : ∀ entry ∈ pool.constants.entries, 0 < entry.1 ∧ entry.1 < pool.next
  room : 0 < pool.next ∧ pool.next ≤ capacity
  indices : ∀ {constant : Constant} {index : Index}, pool.indices[constant]? = some index →
    (index.toNat, constant) ∈ pool.constants.entries

inductive Extended (before : Pool) : Pool → Prop
  | refl : Extended before before
  | push {after : Pool} {constant : Constant} (extended : Extended before after)
      (room : after.hasRoomFor constant = true) (missing : after.indices[constant]? = none) :
      Extended before (after.push constant)

variable {pool before between after : Pool} {constant : Constant} {index : Index}

theorem Extended.trans (first : Extended before between) (second : Extended between after) :
    Extended before after := by
  induction second with
  | refl => exact first
  | push _ room missing ih => exact .push ih room missing

theorem get_eq_ok (sound : pool.Sound) :
    pool.get index = .ok constant ↔ (index.toNat, constant) ∈ pool.constants.entries := by
  have found (i : Nat) : pool.constants.lookup index.toNat = .found i constant ↔
      pool.constants.entries[i]? = some (index.toNat, constant) :=
    OffsetTable.lookup_eq_found sound.increasing
  rw [Array.mem_iff_getElem?]
  simp only [← found, get, OffsetTable.at?]
  constructor
  · intro got
    cases looked : pool.constants.lookup index.toNat with
    | found i constant' =>
        rw [looked] at got
        cases got
        exact ⟨i, rfl⟩
    | inside | beyond =>
        rw [looked] at got
        cases got
  · rintro ⟨i, looked⟩
    rw [looked]

theorem sound_empty : Sound empty := by
  refine ⟨?_, ?_, by decide, ?_⟩
  · intro i j less inRange
    exact absurd inRange (Nat.not_lt_zero _)
  · intro entry member
    exact absurd member (Array.not_mem_empty entry)
  · intro constant index found
    have none : empty.indices[constant]? = none := Std.HashMap.getElem?_empty
    rw [none] at found
    cases found

theorem entries_push (pool : Pool) (constant : Constant) :
    (pool.push constant).constants.entries = pool.constants.entries.push (pool.next, constant) :=
  rfl

theorem Sound.push (sound : pool.Sound) (room : pool.hasRoomFor constant = true) :
    (pool.push constant).Sound := by
  have fits : pool.next + constant.width ≤ capacity := of_decide_eq_true room
  have positive := sound.room.1
  have wide := constant.width_pos
  refine ⟨?_, ?_, ⟨by rw [next_push]; omega, by rwa [next_push]⟩, ?_⟩
  · intro i j less inRange
    simp only [entries_push, Array.size_push] at inRange ⊢
    rw [Array.getElem_push_lt (show i < pool.constants.entries.size by omega)]
    rcases Nat.lt_or_eq_of_le (Nat.le_of_lt_succ inRange) with inside | rfl
    · rw [Array.getElem_push_lt inside]
      exact sound.increasing i j less inside
    · rw [Array.getElem_push_eq]
      exact (sound.bounded _ (Array.getElem_mem _)).2
  · intro entry member
    rw [next_push]
    rcases Array.mem_push.1 member with old | rfl
    · have := sound.bounded entry old
      omega
    · exact ⟨positive, Nat.lt_add_of_pos_right wide⟩
  · intro constant' index found
    have found : (pool.indices.insertIfNew constant (UInt16.ofNat pool.next))[constant']? =
        some index := found
    rw [Std.HashMap.getElem?_insertIfNew] at found
    rw [entries_push, Array.mem_push]
    split at found
    · rename_i new
      cases found
      have fits' : pool.next < UInt16.size := by
        simp only [capacity, UInt16.size] at fits ⊢
        omega
      refine .inr (Prod.ext ?_ ?_)
      · exact UInt16.toNat_ofNat_of_lt' fits'
      · exact (beq_iff_eq.1 new.1).symm
    · exact .inl (sound.indices found)

theorem Extended.sound (extended : Extended before after) (sound : before.Sound) : after.Sound := by
  induction extended with
  | refl => exact sound
  | push _ room _ ih => exact ih.push room

theorem size_push (pool : Pool) (constant : Constant) :
    (pool.push constant).constants.size = pool.constants.size + 1 :=
  Array.size_push _

theorem Extended.size_le (extended : Extended before after) :
    before.constants.size ≤ after.constants.size := by
  induction extended with
  | refl => exact Nat.le_refl _
  | push _ _ _ ih => exact size_push .. ▸ Nat.le_succ_of_le ih

theorem Extended.eq_of_size (extended : Extended before after)
    (same : after.constants.size = before.constants.size) : after = before := by
  cases extended with
  | refl => rfl
  | push extended =>
      have := extended.size_le
      rw [size_push] at same
      omega

theorem Extended.mem {entry : Nat × Constant} (extended : Extended before after)
    (member : entry ∈ before.constants.entries) : entry ∈ after.constants.entries := by
  induction extended with
  | refl => exact member
  | push _ _ _ ih => exact Array.mem_push.2 (.inl ih)

theorem Extended.get (extended : Extended before after) (sound : before.Sound)
    (known : before.get index = .ok constant) : after.get index = .ok constant := by
  rw [get_eq_ok (extended.sound sound)]
  exact extended.mem ((get_eq_ok sound).1 known)

theorem Extended.textAt {text : String} (extended : Extended before after) (sound : before.Sound)
    (known : before.textAt index = .ok text) : after.textAt index = .ok text := by
  obtain ⟨constant, got, rest⟩ := bind_eq_ok.1 known
  exact bind_eq_ok.2 ⟨constant, extended.get sound got, rest⟩

def Appends {α ε : Type} (change : ExceptT ε (StateM Pool) α) : Prop :=
  ∀ before, Extended before (outcome change before).2

section Appends

variable {α β ε ε' : Type}

theorem appends_pure (value : α) : Appends (pure value : ExceptT ε (StateM Pool) α) :=
  fun _ => .refl

theorem appends_throw (error : ε) : Appends (throw error : ExceptT ε (StateM Pool) α) :=
  fun _ => .refl

theorem appends_get : Appends (MonadStateOf.get : ExceptT ε (StateM Pool) Pool) :=
  fun _ => .refl

theorem Appends.bind {change : ExceptT ε (StateM Pool) α} {rest : α → ExceptT ε (StateM Pool) β}
    (first : Appends change) (second : ∀ value, Appends (rest value)) : Appends (change >>= rest) := by
  intro before
  have extended := first before
  rw [outcome_bind]
  rcases run : outcome change before with ⟨error | value, middle⟩
  · rwa [run] at extended
  · rw [run] at extended
    exact extended.trans (second value middle)

theorem Appends.adapt {change : ExceptT ε (StateM Pool) α} (appends : Appends change)
    (wrap : ε → ε') : Appends (ExceptT.adapt wrap change) :=
  appends

theorem Appends.extended {change : ExceptT ε (StateM Pool) α} {result : Except ε α}
    (appends : Appends change) (done : outcome change before = (result, after)) :
    Extended before after := by
  have := appends before
  rwa [done] at this

theorem appends_intern (constant : Constant) : Appends (intern constant) := by
  intro before
  unfold outcome intern
  split
  · exact .refl
  · rename_i missing
    split
    · rename_i room
      exact .push .refl room missing
    · exact .refl

theorem appends_internText (value : String) : Appends (internText value) :=
  appends_intern _

theorem appends_internClass (name : String) : Appends (internClass name) :=
  (appends_internText name).bind fun _ => appends_intern _

theorem appends_internString (value : String) : Appends (internString value) :=
  (appends_internText value).bind fun _ => appends_intern _

theorem appends_internNameAndType (name descriptor : String) :
    Appends (internNameAndType name descriptor) :=
  (appends_internText name).bind fun _ => (appends_internText descriptor).bind fun _ =>
    appends_intern _

theorem appends_internField (owner name descriptor : String) :
    Appends (internField owner name descriptor) :=
  (appends_internClass owner).bind fun _ => (appends_internNameAndType name descriptor).bind fun _ =>
    appends_intern _

theorem appends_internMethod (owner name descriptor : String) (isInterface : Bool) :
    Appends (internMethod owner name descriptor isInterface) :=
  (appends_internClass owner).bind fun _ => (appends_internNameAndType name descriptor).bind fun _ =>
    appends_intern _

end Appends

theorem get_of_intern (sound : before.Sound)
    (interned : outcome (intern constant) before = (.ok index, after)) :
    after.get index = .ok constant := by
  have sound' := ((appends_intern constant).extended interned).sound sound
  rw [get_eq_ok sound']
  unfold outcome intern at interned
  split at interned
  · rename_i found
    cases interned
    exact sound.indices found
  · split at interned
    · rename_i room
      cases interned
      have fits : before.next + constant.width ≤ capacity := of_decide_eq_true room
      have fits' : before.next < UInt16.size := by
        have := constant.width_pos
        simp only [capacity, UInt16.size] at fits ⊢
        omega
      rw [entries_push, UInt16.toNat_ofNat_of_lt' fits']
      exact Array.mem_push_self
    · cases interned

theorem textAt_of_internText {text : String} (sound : before.Sound)
    (interned : outcome (internText text) before = (.ok index, after)) :
    after.textAt index = .ok text :=
  bind_eq_ok.2 ⟨_, get_of_intern sound interned, rfl⟩

theorem classNameAt_of_internClass {name : String} (sound : before.Sound)
    (interned : outcome (internClass name) before = (.ok index, after)) :
    after.classNameAt index = .ok name := by
  obtain ⟨text, middle, first, second⟩ := outcome_bind_eq_ok.1 interned
  have sound' := ((appends_internText name).extended first).sound sound
  have extended := (appends_intern _).extended second
  rw [classNameAt, get_of_intern sound' second]
  exact extended.textAt sound' (textAt_of_internText sound first)

theorem readOnto_push {count : Nat} {input rest : List UInt8} (more : pool.next < count)
    (read : Constant.read input = .ok (constant, rest)) (room : pool.hasRoomFor constant = true) :
    readOnto count pool input = readOnto count (pool.push constant) rest := by
  rw [readOnto, if_pos more, read]
  dsimp only
  rw [if_pos room]

theorem readOnto_done {count : Nat} {input : List UInt8} (ended : pool.next = count) :
    readOnto count pool input = .ok (pool, input) := by
  rw [readOnto, if_neg (Nat.not_lt_of_le (Nat.le_of_eq ended.symm)), if_pos ended]

end ClassSplice.Pool
