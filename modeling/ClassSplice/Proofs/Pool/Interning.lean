import ClassSplice.Proofs.Pool.Reached

namespace ClassSplice.Pool

variable {pool before between after later : Pool} {constant : Constant} {index : Index}
  {request part : Request} {result : Except Error Index} {error : Error}

/-! ## Where entries stand -/

inductive Packed : Nat → List (Nat × Constant) → Nat → Prop
  | nil {start : Nat} : Packed start [] start
  | cons {start stop : Nat} {constant : Constant} {others : List (Nat × Constant)}
      (rest : Packed (start + constant.width) others stop) :
      Packed start ((start, constant) :: others) stop

theorem Packed.concat {start stop : Nat} {entries : List (Nat × Constant)}
    (packed : Packed start entries stop) (constant : Constant) :
    Packed start (entries ++ [(stop, constant)]) (stop + constant.width) := by
  induction packed with
  | nil => exact .cons .nil
  | cons _ ih => exact .cons ih

structure Placed (pool : Pool) : Prop where
  increasing : pool.constants.Increasing
  packed : Packed 1 pool.constants.entries.toList pool.next
  room : pool.next ≤ capacity

@[elab_as_elim]
theorem Filled.induct {motive : Pool → Prop} (filled : pool.Filled) (empty : motive .empty)
    (push : ∀ {pool : Pool} {constant : Constant}, pool.Filled →
      pool.hasRoomFor constant = true → motive pool → motive (pool.push constant)) : motive pool := by
  have pushed (constants : List Constant)
      (room : (constants.foldl Pool.push .empty).next ≤ capacity) :
      motive (constants.foldl Pool.push .empty) := by
    induction constants using List.reverseRecOn with
    | nil => exact empty
    | append_singleton constants constant ih =>
        rw [List.foldl_concat] at room ⊢
        have less := next_le_foldl_push (constants.foldl Pool.push .empty) [constant]
        have fits := Nat.le_trans less room
        exact push (filled_foldl_push fits) (decide_eq_true room) (ih fits)
  have room := filled.room
  rw [← filled.added] at room ⊢
  exact pushed _ room

theorem Filled.placed (filled : pool.Filled) : pool.Placed := by
  refine ⟨filled.sound.increasing, ?_, filled.room⟩
  refine filled.induct .nil fun _ _ packed => ?_
  rw [entries_push, Array.toList_push]
  exact packed.concat _

/-! ## What is found again -/

/-- Asking for the constant gives this index. -/
def Known (pool : Pool) (index : Index) (constant : Constant) : Prop :=
  pool.indices[constant]? = some index

def Unknown (pool : Pool) (constant : Constant) : Prop :=
  pool.indices[constant]? = none

theorem indices_push (pool : Pool) (constant : Constant) :
    (pool.push constant).indices = pool.indices.insertIfNew constant (UInt16.ofNat pool.next) :=
  rfl

theorem Known.push (known : pool.Known index constant) (other : Constant) :
    (pool.push other).Known index constant := by
  rw [Known, indices_push, Std.HashMap.getElem?_insertIfNew]
  have present : constant ∈ pool.indices := Std.HashMap.mem_iff_isSome_getElem?.2 (by rw [known]; rfl)
  split
  · rename_i new
    obtain rfl := beq_iff_eq.1 new.1
    exact absurd present new.2
  · exact known

theorem known_push_of_unknown (missing : pool.Unknown constant) :
    (pool.push constant).Known (UInt16.ofNat pool.next) constant := by
  have absent : constant ∉ pool.indices := by
    rw [Std.HashMap.mem_iff_isSome_getElem?, missing]
    simp
  rw [Known, indices_push, Std.HashMap.getElem?_insertIfNew, if_pos ⟨beq_self_eq_true _, absent⟩]

theorem Unknown.push {other : Constant} (missing : pool.Unknown constant) (ne : other ≠ constant) :
    (pool.push other).Unknown constant := by
  rw [Unknown, indices_push, Std.HashMap.getElem?_insertIfNew, if_neg (by simp [ne])]
  exact missing

theorem unknown_foldl_push {constants : List Constant} (absent : constant ∉ constants) :
    (constants.foldl push .empty).Unknown constant := by
  induction constants using List.reverseRecOn with
  | nil => exact Std.HashMap.getElem?_empty
  | append_singleton constants other ih =>
      rw [List.mem_append, List.mem_singleton, not_or] at absent
      rw [List.foldl_concat]
      exact (ih absent.1).push (Ne.symm absent.2)

theorem Known.extended (known : before.Known index constant) (extended : Extended before after) :
    after.Known index constant := by
  induction extended with
  | refl => exact known
  | push _ _ _ ih => exact ih.push _

theorem Known.get (known : pool.Known index constant) (sound : pool.Sound) :
    pool.get index = .ok constant :=
  (get_eq_ok sound).2 (sound.indices known)

theorem Filled.known_le (filled : pool.Filled) : ∀ entry ∈ pool.constants.entries,
    ∃ index : Index, pool.Known index entry.2 ∧ index.toNat ≤ entry.1 := by
  refine filled.induct ?_ ?_
  · intro entry member
    exact absurd member (Array.not_mem_empty entry)
  · intro pool constant filled _ ih entry member
    rcases Array.mem_push.1 member with old | rfl
    · obtain ⟨index, known, less⟩ := ih entry old
      exact ⟨index, known.push _, less⟩
    · by_cases missing : pool.Unknown constant
      · refine ⟨_, known_push_of_unknown missing, ?_⟩
        exact Nat.le_of_eq (UInt16.toNat_ofNat_of_lt' (Nat.lt_succ_of_le filled.room))
      · obtain ⟨index, known⟩ := Option.ne_none_iff_exists'.1 missing
        have known : pool.Known index constant := known
        have less := filled.sound.bounded _ (filled.sound.indices known)
        exact ⟨index, known.push _, Nat.le_of_lt less.2⟩

theorem Known.first (known : pool.Known index constant) (filled : pool.Filled) {other : Index}
    (got : pool.get other = .ok constant) : index ≤ other := by
  obtain ⟨index', known', less⟩ := filled.known_le _ ((get_eq_ok filled.sound).1 got)
  obtain rfl := Option.some.inj (known.symm.trans known')
  exact less

theorem Unknown.get_ne (missing : pool.Unknown constant) (filled : pool.Filled) (index : Index) :
    pool.get index ≠ .ok constant := by
  intro got
  obtain ⟨_, known, _⟩ := filled.known_le _ ((get_eq_ok filled.sound).1 got)
  exact Option.some_ne_none _ (known.symm.trans missing)

/-! ## What is asked for -/

/-- What a constant comes to when the indices in it are followed to the constants that stand there. -/
inductive Denotes (stands : Index → Constant → Prop) : Constant → Request → Prop
  | text (value : String) : Denotes stands (.text value) (.text value)
  | integer (value : Int32) : Denotes stands (.integer value) (.integer value)
  | float (bits : UInt32) : Denotes stands (.float bits) (.float bits)
  | long (value : Int64) : Denotes stands (.long value) (.long value)
  | double (bits : UInt64) : Denotes stands (.double bits) (.double bits)
  | classRef {name : Index} {value : String} (named : stands name (.text value)) :
      Denotes stands (.classRef name) (.classRef value)
  | string {content : Index} {value : String} (named : stands content (.text value)) :
      Denotes stands (.string content) (.string value)
  | nameAndType {first second : Index} {name descriptor : String}
      (named : stands first (.text name)) (described : stands second (.text descriptor)) :
      Denotes stands (.nameAndType first second) (.nameAndType name descriptor)
  | field {first second : Index} {class' member : Constant} {owner name descriptor : String}
      (atFirst : stands first class') (owned : Denotes stands class' (.classRef owner))
      (atSecond : stands second member)
      (named : Denotes stands member (.nameAndType name descriptor)) :
      Denotes stands (.fieldRef first second) (.field owner name descriptor)
  | method {first second : Index} {class' member : Constant} {owner name descriptor : String}
      {isInterface : Bool}
      (atFirst : stands first class') (owned : Denotes stands class' (.classRef owner))
      (atSecond : stands second member)
      (named : Denotes stands member (.nameAndType name descriptor)) :
      Denotes stands (.methodRef first second isInterface) (.method owner name descriptor isInterface)

def At (pool : Pool) (index : Index) (constant : Constant) : Prop :=
  pool.get index = .ok constant

def Request.parts : Request → List Request
  | .classRef name => [.text name, .classRef name]
  | .string value => [.text value, .string value]
  | .nameAndType name descriptor => [.text name, .text descriptor, .nameAndType name descriptor]
  | .field owner name descriptor =>
    [.text owner, .classRef owner, .text name, .text descriptor, .nameAndType name descriptor,
      .field owner name descriptor]
  | .method owner name descriptor isInterface =>
    [.text owner, .classRef owner, .text name, .text descriptor, .nameAndType name descriptor,
      .method owner name descriptor isInterface]
  | request => [request]

section Denotes

variable {stands stands' : Index → Constant → Prop}

theorem Denotes.mono (denotes : Denotes stands constant request)
    (kept : ∀ {index constant}, stands index constant → stands' index constant) :
    Denotes stands' constant request := by
  induction denotes with
  | text value => exact .text value
  | integer value => exact .integer value
  | float bits => exact .float bits
  | long value => exact .long value
  | double bits => exact .double bits
  | classRef named => exact .classRef (kept named)
  | string named => exact .string (kept named)
  | nameAndType named described => exact .nameAndType (kept named) (kept described)
  | field atFirst _ atSecond _ owned named => exact .field (kept atFirst) owned (kept atSecond) named
  | method atFirst _ atSecond _ owned named => exact .method (kept atFirst) owned (kept atSecond) named

end Denotes

/-! ## One request -/

def Request.Blocked (request : Request) (stands : Index → Constant → Prop) (pool : Pool)
    (error : Error) : Prop :=
  ∃ part ∈ request.parts, ∃ constant, Denotes stands constant part ∧ pool.Unknown constant ∧
    capacity < pool.next + constant.width ∧ error = .poolFull constant pool.next

structure Answers (change : PoolM Index) (request : Request) : Prop where
  appends : Appends change
  found : ∀ {before after : Pool} {index : Index}, outcome change before = (.ok index, after) →
    ∃ constant, after.Known index constant ∧ Denotes after.Known constant request
  again : ∀ {pool : Pool} {index : Index} {constant : Constant}, pool.Known index constant →
    Denotes pool.Known constant request → outcome change pool = (.ok index, pool)
  blocked : ∀ {before after : Pool} {error : Error},
    outcome change before = (.error error, after) → request.Blocked after.Known after error

theorem known_of_intern (interned : outcome (intern constant) before = (.ok index, after)) :
    after.Known index constant := by
  unfold outcome intern at interned
  split at interned
  · rename_i found
    cases interned
    exact found
  · rename_i missing
    split at interned
    · cases interned
      exact known_push_of_unknown missing
    · cases interned

theorem intern_of_known (known : pool.Known index constant) :
    outcome (intern constant) pool = (.ok index, pool) := by
  simp only [outcome, intern, show pool.indices[constant]? = some index from known]

theorem unknown_of_intern (refused : outcome (intern constant) before = (.error error, after)) :
    after.Unknown constant ∧ capacity < after.next + constant.width ∧
      error = .poolFull constant after.next := by
  unfold outcome intern at refused
  split at refused
  · cases refused
  · rename_i missing
    split at refused
    · cases refused
    · rename_i full
      cases refused
      exact ⟨missing, Nat.lt_of_not_le (of_decide_eq_false (Bool.not_eq_true _ ▸ full)), rfl⟩

theorem answers_intern (own : request ∈ request.parts)
    (spelled : ∀ {stands constant'}, Denotes stands constant' request ↔ constant' = constant) :
    Answers (intern constant) request where
  appends := appends_intern constant
  found done := ⟨constant, known_of_intern done, spelled.2 rfl⟩
  again known denotes := by
    rw [spelled.1 denotes] at known
    exact intern_of_known known
  blocked refused := ⟨request, own, constant, spelled.2 rfl, unknown_of_intern refused⟩

theorem Request.Blocked.of_part {stands : Index → Constant → Prop}
    (blocked : part.Blocked stands pool error) (within : part.parts ⊆ request.parts) :
    request.Blocked stands pool error := by
  obtain ⟨part', member, rest⟩ := blocked
  exact ⟨part', within member, rest⟩

theorem Answers.one {change : PoolM Index} {build : Index → Constant} (first : Answers change part)
    (own : request ∈ request.parts) (within : part.parts ⊆ request.parts)
    (spelled : ∀ {stands constant}, Denotes stands constant request ↔
      ∃ index inner, stands index inner ∧ Denotes stands inner part ∧ constant = build index) :
    Answers (do intern (build (← change))) request where
  appends := first.appends.bind fun _ => appends_intern _
  found done := by
    obtain ⟨index, middle, one, done⟩ := outcome_bind_eq_ok.1 done
    obtain ⟨inner, known, denotes⟩ := first.found one
    have extended := (appends_intern _).extended done
    refine ⟨build index, known_of_intern done, ?_⟩
    exact spelled.2 ⟨index, inner, known.extended extended, denotes.mono (·.extended extended), rfl⟩
  again known denotes := by
    obtain ⟨index, inner, knownInner, denotesInner, rfl⟩ := spelled.1 denotes
    exact outcome_bind_eq_ok.2 ⟨_, _, first.again knownInner denotesInner, intern_of_known known⟩
  blocked refused := by
    rcases outcome_bind_eq_error.1 refused with refused | ⟨index, middle, one, refused⟩
    · exact (first.blocked refused).of_part within
    · obtain ⟨inner, known, denotes⟩ := first.found one
      have extended := (appends_intern _).extended refused
      refine ⟨request, own, build index, ?_, unknown_of_intern refused⟩
      exact spelled.2 ⟨index, inner, known.extended extended, denotes.mono (·.extended extended), rfl⟩

theorem Answers.two {part' : Request} {change change' : PoolM Index} {build : Index → Index → Constant}
    (first : Answers change part) (second : Answers change' part')
    (own : request ∈ request.parts) (within : part.parts ⊆ request.parts)
    (within' : part'.parts ⊆ request.parts)
    (spelled : ∀ {stands constant}, Denotes stands constant request ↔
      ∃ index inner, stands index inner ∧ Denotes stands inner part ∧
        ∃ index' inner', stands index' inner' ∧ Denotes stands inner' part' ∧
          constant = build index index') :
    Answers (do
      let index ← change
      let index' ← change'
      intern (build index index')) request where
  appends := first.appends.bind fun _ => second.appends.bind fun _ => appends_intern _
  found done := by
    obtain ⟨index, middle, one, done⟩ := outcome_bind_eq_ok.1 done
    obtain ⟨index', middle', two, done⟩ := outcome_bind_eq_ok.1 done
    obtain ⟨inner, known, denotes⟩ := first.found one
    obtain ⟨inner', known', denotes'⟩ := second.found two
    have extended' := (appends_intern _).extended done
    have extended := (second.appends.extended two).trans extended'
    refine ⟨build index index', known_of_intern done,
      spelled.2 ⟨index, inner, ?_, ?_, index', inner', ?_, ?_, rfl⟩⟩
    · exact known.extended extended
    · exact denotes.mono (·.extended extended)
    · exact known'.extended extended'
    · exact denotes'.mono (·.extended extended')
  again known denotes := by
    obtain ⟨index, inner, knownInner, denotesInner, index', inner', knownInner', denotesInner', rfl⟩ :=
      spelled.1 denotes
    refine outcome_bind_eq_ok.2 ⟨_, _, first.again knownInner denotesInner, ?_⟩
    exact outcome_bind_eq_ok.2 ⟨_, _, second.again knownInner' denotesInner', intern_of_known known⟩
  blocked refused := by
    rcases outcome_bind_eq_error.1 refused with refused | ⟨index, middle, one, refused⟩
    · exact (first.blocked refused).of_part within
    rcases outcome_bind_eq_error.1 refused with refused | ⟨index', middle', two, refused⟩
    · exact (second.blocked refused).of_part within'
    obtain ⟨inner, known, denotes⟩ := first.found one
    obtain ⟨inner', known', denotes'⟩ := second.found two
    have extended' := (appends_intern _).extended refused
    have extended := (second.appends.extended two).trans extended'
    refine ⟨request, own, build index index', ?_, unknown_of_intern refused⟩
    refine spelled.2 ⟨index, inner, ?_, ?_, index', inner', ?_, ?_, rfl⟩
    · exact known.extended extended
    · exact denotes.mono (·.extended extended)
    · exact known'.extended extended'
    · exact denotes'.mono (·.extended extended')

def Request.flat? : Request → Option Constant
  | .text value => some (.text value)
  | .integer value => some (.integer value)
  | .float bits => some (.float bits)
  | .long value => some (.long value)
  | .double bits => some (.double bits)
  | _ => none

theorem answers_flat (flat : request.flat? = some constant) : Answers (intern constant) request := by
  refine answers_intern ?_ ?_
  · cases request <;> simp_all [Request.flat?, Request.parts]
  · intro stands constant'
    constructor
    · intro denotes
      cases denotes <;> simp_all [Request.flat?]
    · rintro rfl
      cases request <;> cases flat <;> constructor

theorem answers_internText (value : String) : Answers (internText value) (.text value) :=
  answers_flat rfl

theorem answers_internClass (name : String) : Answers (internClass name) (.classRef name) := by
  refine (answers_internText name).one (by simp [Request.parts]) (by simp [Request.parts]) ?_
  intro stands constant
  constructor
  · rintro ⟨⟩
    exact ⟨_, _, ‹_›, .text name, rfl⟩
  · rintro ⟨index, _, named, ⟨⟩, rfl⟩
    exact .classRef named

theorem answers_internString (value : String) : Answers (internString value) (.string value) := by
  refine (answers_internText value).one (by simp [Request.parts]) (by simp [Request.parts]) ?_
  intro stands constant
  constructor
  · rintro ⟨⟩
    exact ⟨_, _, ‹_›, .text value, rfl⟩
  · rintro ⟨index, _, named, ⟨⟩, rfl⟩
    exact .string named

theorem answers_internNameAndType (name descriptor : String) :
    Answers (internNameAndType name descriptor) (.nameAndType name descriptor) := by
  refine (answers_internText name).two (answers_internText descriptor) (by simp [Request.parts])
    (by simp [Request.parts]) (by simp [Request.parts]) ?_
  intro stands constant
  constructor
  · rintro ⟨⟩
    exact ⟨_, _, ‹_›, .text name, _, _, ‹_›, .text descriptor, rfl⟩
  · rintro ⟨index, _, named, ⟨⟩, index', _, described, ⟨⟩, rfl⟩
    exact .nameAndType named described

theorem answers_internField (owner name descriptor : String) :
    Answers (internField owner name descriptor) (.field owner name descriptor) := by
  refine (answers_internClass owner).two (answers_internNameAndType name descriptor)
    (by simp [Request.parts]) (by simp [Request.parts]) (by simp [Request.parts]) ?_
  intro stands constant
  constructor
  · rintro (_ | _ | _ | _ | _ | _ | _ | _ | ⟨atFirst, owned, atSecond, named⟩)
    exact ⟨_, _, atFirst, owned, _, _, atSecond, named, rfl⟩
  · rintro ⟨index, _, atFirst, owned, index', _, atSecond, named, rfl⟩
    exact .field atFirst owned atSecond named

theorem answers_internMethod (owner name descriptor : String) (isInterface : Bool) :
    Answers (internMethod owner name descriptor isInterface)
      (.method owner name descriptor isInterface) := by
  refine (answers_internClass owner).two (answers_internNameAndType name descriptor)
    (by simp [Request.parts]) (by simp [Request.parts]) (by simp [Request.parts]) ?_
  intro stands constant
  constructor
  · rintro (_ | _ | _ | _ | _ | _ | _ | _ | _ | ⟨atFirst, owned, atSecond, named⟩)
    exact ⟨_, _, atFirst, owned, _, _, atSecond, named, rfl⟩
  · rintro ⟨index, _, atFirst, owned, index', _, atSecond, named, rfl⟩
    exact .method atFirst owned atSecond named

theorem answers_run (request : Request) : Answers request.run request := by
  cases request with
  | classRef name => exact answers_internClass name
  | string value => exact answers_internString value
  | nameAndType name descriptor => exact answers_internNameAndType name descriptor
  | field owner name descriptor => exact answers_internField owner name descriptor
  | method owner name descriptor isInterface =>
      exact answers_internMethod owner name descriptor isInterface
  | text | integer | float | long | double => exact answers_flat rfl

/-! ## Whole runs -/

inductive Asked (pool : Pool) : Pool → Prop
  | refl : Asked pool pool
  | step {between : Pool} (asked : Asked pool between) (request : Request) :
      Asked pool (outcome request.run between).2

theorem Asked.extended (asked : pool.Asked after) : Extended pool after := by
  induction asked with
  | refl => exact .refl
  | step _ request ih => exact ih.trans (appends_run request _)

theorem Extended.entries_prefix (extended : Extended before after) :
    before.constants.entries.toList <+: after.constants.entries.toList := by
  induction extended with
  | refl => exact List.prefix_refl _
  | push _ _ _ ih =>
      rw [entries_push, Array.toList_push]
      exact ih.trans (List.prefix_append _ _)

/-- A request is granted the first index of exactly what it asks for, now and at any later time, or it
is refused since a constant that it needs has no room. -/
def Answered (request : Request) (after : Pool) : Except Error Index → Prop
  | .ok index =>
    (∃ constant, after.At index constant ∧ Denotes after.At constant request ∧
      ∀ other, after.At other constant → index ≤ other) ∧
    ∀ later, after.Asked later → outcome request.run later = (.ok index, later)
  | .error error =>
    ∃ part ∈ request.parts, ∃ constant, Denotes after.At constant part ∧
      (∀ index, ¬ after.At index constant) ∧ capacity < after.next + constant.width ∧
      error = .poolFull constant after.next

theorem answered_of_run (filled : before.Filled) (run : outcome request.run before = (result, after)) :
    Answered request after result := by
  have answers := answers_run request
  have filled' := (answers.appends.extended run).filled filled
  have stands {index : Index} {constant : Constant} (known : after.Known index constant) :
      after.At index constant := known.get filled'.sound
  cases result with
  | ok index =>
      obtain ⟨constant, known, denotes⟩ := answers.found run
      refine ⟨⟨constant, stands known, denotes.mono stands, fun other => known.first filled'⟩, ?_⟩
      intro later asked
      have kept {index : Index} {constant : Constant} (known : after.Known index constant) :
          later.Known index constant := known.extended asked.extended
      exact answers.again (kept known) (denotes.mono kept)
  | error error =>
      obtain ⟨part, member, constant, denotes, missing, full, same⟩ := answers.blocked run
      exact ⟨part, member, constant, denotes.mono stands, missing.get_ne filled', full, same⟩

/-- Asking a pool that has come about for one more constant. -/
theorem interning_of_reached (reached : pool.Reached) :
    pool.Placed ∧ ∀ request result after, outcome request.run pool = (result, after) →
      pool.constants.entries.toList <+: after.constants.entries.toList ∧
      (∀ index constant, pool.At index constant → after.At index constant) ∧
      Answered request after result := by
  have filled := reached.filled
  refine ⟨filled.placed, ?_⟩
  intro request result after run
  have extended := (appends_run request).extended run
  exact ⟨extended.entries_prefix, fun _ _ => extended.get filled.sound, answered_of_run filled run⟩

theorem interning_tinyPool : Reached .empty ∧
    outcome (Request.classRef "C").run .empty =
      (.ok 2, [.text "C", .classRef 1].foldl push .empty) ∧
    outcome (Request.classRef "C").run tinyPool = (.ok 2, tinyPool) := by
  have later : ([.text "C", .classRef 1].foldl push .empty).Asked tinyPool := by
    have none : ([.text "C", .classRef 1].foldl push .empty).Asked
        ([.text "C", .classRef 1].foldl push .empty) := .refl
    have asked := none.step (.long 7)
    rwa [Request.run, intern_of_missing seven_missing rfl] at asked
  obtain ⟨_, granted⟩ := interning_of_reached .empty
  obtain ⟨_, _, _, again⟩ := granted (.classRef "C") _ _ internClass_empty
  exact ⟨.empty, internClass_empty, again _ later⟩

end ClassSplice.Pool
