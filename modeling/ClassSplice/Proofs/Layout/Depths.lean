import ClassSplice.Proofs.Code.Arrivals

namespace ClassSplice

namespace Pool

variable {before after : Pool} {index : Index}

theorem Extended.descriptor? {descriptor : String} (extended : Extended before after)
    (sound : before.Sound) (known : before.descriptor? index = some descriptor) :
    after.descriptor? index = some descriptor := by
  obtain ⟨constant, member, name, text, got, refers, named, described⟩ := descriptor?_eq_some.1 known
  exact descriptor?_eq_some.2 ⟨constant, member, name, text, extended.get sound got, refers,
    extended.get sound named, extended.textAt sound described⟩

end Pool

namespace Code

section Effects

variable {pool pool' : Pool} {effect : Int} {instruction : Instruction}

theorem constantEffect?_extended {opcode : Opcode} {index : Pool.Index} {rest : List UInt8}
    (extended : Pool.Extended pool pool') (sound : pool.Sound)
    (measured : constantEffect? pool opcode index rest = some effect) :
    constantEffect? pool' opcode index rest = some effect := by
  unfold constantEffect? at measured ⊢
  split at measured
  · rename_i array
    rw [if_pos array]
    exact measured
  · rename_i other
    rw [if_neg other]
    split at measured
    · cases measured
    · rename_i descriptor known
      rw [extended.descriptor? sound known]
      exact measured

theorem Instruction.stackEffect?_extended (extended : Pool.Extended pool pool') (sound : pool.Sound)
    (measured : instruction.stackEffect? pool = some effect) :
    instruction.stackEffect? pool' = some effect := by
  cases instruction with
  | plain bytes =>
      simp only [stackEffect?] at measured ⊢
      unfold plainEffect? at measured ⊢
      split at measured
      · cases measured
      · split at measured
        · rename_i wide
          rw [if_pos wide]
          exact measured
        · rename_i narrow
          rw [if_neg narrow]
          split at measured
          · rename_i varies
            rw [if_pos varies]
            split at measured
            · exact constantEffect?_extended extended sound measured
            · cases measured
          · rename_i steady
            rw [if_neg steady]
            exact measured
  | branch | wideBranch | tableSwitch | lookupSwitch => exact measured

theorem Instruction.stackEffect?_of_extended (extended : Pool.Extended pool pool')
    (sound : pool.Sound) (known : (instruction.stackEffect? pool).isSome = true)
    (measured : instruction.stackEffect? pool' = some effect) :
    instruction.stackEffect? pool = some effect := by
  obtain ⟨effect', known⟩ := Option.isSome_iff_exists.1 known
  rwa [← (stackEffect?_extended extended sound known).symm.trans measured]

end Effects

namespace Opcode

theorem Opposite.growth {opcode inverse : Opcode} (opposite : opcode.Opposite inverse) :
    inverse.growth = opcode.growth := by
  have named {opcode : Opcode} (conditional : opcode.isConditional = true) {pair : String × String}
      (member : pair ∈ opposites)
      (known : opcode.mnemonic? = some pair.1 ∨ opcode.mnemonic? = some pair.2) :
      opcode.growth = ((ofMnemonic? pair.1).map Opcode.growth).getD 0 := by
    have := forall_of_fin (fun opcode => !opcode.isConditional || opposites.all fun pair =>
      !(opcode.mnemonic? == some pair.1 || opcode.mnemonic? == some pair.2) ||
        opcode.growth == ((ofMnemonic? pair.1).map Opcode.growth).getD 0) (by decide +kernel) opcode
    rw [conditional, Bool.not_true, Bool.false_or] at this
    have := List.all_eq_true.1 this pair member
    rcases known with known | known <;> simpa [known] using this
  obtain ⟨conditional, conditional'⟩ := opposite.isConditional
  obtain ⟨pair, member, ⟨one, other⟩ | ⟨one, other⟩⟩ := opposite
  · rw [named conditional member (.inl one), named conditional' member (.inr other)]
  · rw [named conditional member (.inr one), named conditional' member (.inl other)]

theorem growth_of_isConditional {opcode : Opcode} (conditional : opcode.isConditional = true) :
    opcode.growth ≤ 0 ∧ ¬(opcode = jsr ∨ opcode = jsrW) := by
  have := forall_of_fin (fun opcode => !opcode.isConditional ||
    decide (opcode.growth ≤ 0 ∧ ¬(opcode = jsr ∨ opcode = jsrW))) (by decide +kernel) opcode
  simpa [conditional] using this

theorem growth_gotoW : growth gotoW = 0 := by
  decide +kernel

theorem growth_goto : growth goto = 0 := by
  decide +kernel

theorem growth_jsr : growth jsrW = growth jsr := by
  decide +kernel

end Opcode

structure Instruction.Alike (Lands : Int → Int → Prop) (one other : Instruction) : Prop where
  effect : ∀ pool, other.stackEffect? pool = one.stackEffect? pool
  width : other.returnWidth = one.returnWidth
  falls : other.fallsThrough = one.fallsThrough
  targets : List.Forall₂ Lands one.targets other.targets

theorem Image.alike_or_conditional {Lands : Int → Int → Prop} {here : Nat}
    {instruction : Instruction} {image : List (Nat × Located)}
    (is : Image Lands here instruction image) :
    (∃ located, image = [(here, located)] ∧ instruction.Alike Lands located.instruction) ∨
      ∃ opcode inverse target moved, instruction = .branch opcode target ∧ opcode.Opposite inverse ∧
        Lands target moved ∧ image = [(here, ⟨3, .branch inverse (here + 8)⟩),
          (here + 3, ⟨5, .wideBranch Opcode.gotoW moved⟩)] := by
  have one {target moved : Int} (landed : Lands target moved) : List.Forall₂ Lands [target] [moved] :=
    .cons landed .nil
  cases is with
  | plain bytes => exact .inl ⟨_, rfl, fun _ => rfl, rfl, rfl, .nil⟩
  | branch landed | wideBranch landed => exact .inl ⟨_, rfl, fun _ => rfl, rfl, rfl, one landed⟩
  | goto landed =>
      have effect := congrArg some (Opcode.growth_gotoW.trans Opcode.growth_goto.symm)
      exact .inl ⟨_, rfl, fun _ => effect, rfl, rfl, one landed⟩
  | jsr landed =>
      have effect := congrArg some Opcode.growth_jsr
      exact .inl ⟨_, rfl, fun _ => effect, rfl, rfl, one landed⟩
  | conditional opposite landed => exact .inr ⟨_, _, _, _, rfl, opposite, landed, rfl⟩
  | tableSwitch landed each => exact .inl ⟨_, rfl, fun _ => rfl, rfl, rfl, .cons landed each⟩
  | lookupSwitch landed each =>
      refine .inl ⟨_, rfl, fun _ => rfl, rfl, rfl, .cons landed ?_⟩
      rw [List.forall₂_map_left_iff, List.forall₂_map_right_iff]
      exact each.imp fun _ _ both => both.2

section Ways

variable {pool : Pool} {pos next length : Nat} {change target : Int}

theorem leaves_conditional {opcode : Opcode} (conditional : opcode.isConditional = true) :
    Located.Leaves pool pos ⟨length, .branch opcode target⟩ next change ↔
      opcode.growth = change ∧ (next = pos + length ∨ (next : Int) = target) := by
  have falls : (Instruction.branch opcode target).fallsThrough = true := by
    simp [Instruction.fallsThrough, Opcode.not_endsFlow_of_isConditional conditional]
  have width : (Instruction.branch opcode target).returnWidth = 0 :=
    if_neg (Opcode.growth_of_isConditional conditional).2
  constructor
  · intro leaves
    cases leaves with
    | onward measured =>
        rw [width, Int.sub_zero]
        exact ⟨Option.some.inj measured, .inl rfl⟩
    | jump measured named => exact ⟨Option.some.inj measured, .inr (List.mem_singleton.1 named)⟩
  · rintro ⟨rfl, rfl | rfl⟩
    · have onward : Located.Leaves pool pos ⟨length, .branch opcode target⟩ (pos + length) _ :=
        .onward rfl falls
      rwa [width, Int.sub_zero] at onward
    · exact .jump rfl (List.mem_singleton_self _)

theorem leaves_gotoW :
    Located.Leaves pool pos ⟨length, .wideBranch Opcode.gotoW target⟩ next change ↔
      change = 0 ∧ (next : Int) = target := by
  constructor
  · intro leaves
    cases leaves with
    | onward _ falls => cases falls
    | jump measured named =>
        have same := (Option.some.inj measured).symm
        exact ⟨same.trans Opcode.growth_gotoW, List.mem_singleton.1 named⟩
  · rintro ⟨rfl, rfl⟩
    exact .jump (congrArg some Opcode.growth_gotoW) (List.mem_singleton_self _)

end Ways

def Listing.Lands (old : Listing) (place : Nat → Nat) (target landed : Int) : Prop :=
  ∃ goal : Nat, old.IsBoundary goal ∧ target = goal ∧ landed = place goal

structure Planted (old : Listing) (place : Nat → Nat) (code : Array UInt8) : Prop where
  image : ∀ {pos : Nat} {located : Located}, (pos, located) ∈ old.entries → ∃ image,
    Image (old.Lands place) (place pos) located.instruction image ∧
      Runs code (place pos) image (place (pos + located.length))
  stop : place old.next = code.size

def raised (place : Nat → Nat) (shift : Int) (roots : List (Nat × Int)) : List (Nat × Int) :=
  roots.map fun root => (place root.1, root.2 + shift)

section Planted

variable {pool pool' : Pool} {old : Listing} {place : Nat → Nat} {base code : Array UInt8}
  {roots : List (Nat × Int)} {pos next here : Nat} {level change shift limit : Int} {located : Located}

theorem Instruction.Alike.leaves {located' : Located}
    (alike : located.instruction.Alike (old.Lands place) located'.instruction)
    (behind : place pos + located'.length = place (pos + located.length))
    (extended : Pool.Extended pool pool') (sound : pool.Sound)
    (leaves : located.Leaves pool pos next change) :
    located'.Leaves pool' (place pos) (place next) change := by
  have measured' {effect : Int} (measured : located.instruction.stackEffect? pool = some effect) :
      located'.instruction.stackEffect? pool' = some effect :=
    (alike.effect pool').trans (Instruction.stackEffect?_extended extended sound measured)
  cases leaves with
  | onward measured falls =>
      rw [← behind, ← alike.width]
      exact .onward (measured' measured) (alike.falls.trans falls)
  | jump measured named =>
      obtain ⟨landed, named', goal, _, same, rfl⟩ := forall₂_mem_right alike.targets.flip named
      obtain rfl : next = goal := Int.ofNat_inj.1 same
      exact .jump (measured' measured) named'

theorem Instruction.Alike.exists_leaves {located' : Located} {there : Nat}
    (alike : located.instruction.Alike (old.Lands place) located'.instruction)
    (behind : place pos + located'.length = place (pos + located.length))
    (extended : Pool.Extended pool pool') (sound : pool.Sound)
    (known : (located.instruction.stackEffect? pool).isSome = true)
    (leaves : located'.Leaves pool' (place pos) there change) :
    ∃ next, there = place next ∧ located.Leaves pool pos next change := by
  have measured {effect : Int} (measured' : located'.instruction.stackEffect? pool' = some effect) :
      located.instruction.stackEffect? pool = some effect :=
    Instruction.stackEffect?_of_extended extended sound known
      ((alike.effect pool').symm.trans measured')
  cases leaves with
  | onward measured' falls =>
      rw [alike.width]
      exact ⟨_, behind, .onward (measured measured') (alike.falls.symm.trans falls)⟩
  | jump measured' named =>
      obtain ⟨target, named, goal, _, rfl, same⟩ := forall₂_mem_right alike.targets named
      exact ⟨goal, Int.ofNat_inj.1 same, .jump (measured measured') named⟩

theorem Planted.step (planted : Planted old place code) (extended : Pool.Extended pool pool')
    (sound : pool.Sound) (member : (pos, located) ∈ old.entries)
    (leaves : located.Leaves pool pos next change) :
    Arrives pool' code [(place pos, level)] (place next) (level + change) := by
  have start : Arrives pool' code [(place pos, level)] (place pos) level :=
    .root (List.mem_singleton_self _)
  obtain ⟨image, is, run⟩ := planted.image member
  rcases is.alike_or_conditional with ⟨located', rfl, alike⟩ |
    ⟨opcode, inverse, target, moved, branches, opposite, lands, rfl⟩
  · obtain ⟨_, reads, behind⟩ := runs_singleton.1 run
    exact start.next reads (alike.leaves behind.symm extended sound leaves)
  · obtain ⟨length, instruction⟩ := located
    dsimp only at branches
    subst branches
    obtain ⟨conditional, conditional'⟩ := opposite.isConditional
    cases run with
    | step reads rest =>
    obtain ⟨_, reads', behind⟩ := runs_singleton.1 rest
    obtain ⟨rfl, rfl | rfl⟩ := (leaves_conditional conditional).1 leaves
    -- The opposite condition skips the jump where the old branch is not taken.
    · refine start.next reads ((leaves_conditional conditional').2 ⟨opposite.growth, .inr ?_⟩)
      rw [behind]
      rfl
    · obtain ⟨goal, _, same, rfl⟩ := lands
      obtain rfl : next = goal := Int.ofNat_inj.1 same
      have between := start.next reads
        ((leaves_conditional conditional').2 ⟨opposite.growth, .inl rfl⟩)
      have there := between.next reads' (leaves_gotoW.2 ⟨rfl, rfl⟩)
      rwa [Int.add_zero] at there

theorem Planted.aimed (planted : Planted old place code) : old.Aimed := by
  intro entry member target named
  obtain ⟨image, is, _⟩ := planted.image member
  rcases is.alike_or_conditional with ⟨_, _, alike⟩ | ⟨_, _, _, _, branches, _, lands, _⟩
  · obtain ⟨_, _, goal, boundary, same, _⟩ := forall₂_mem_right alike.targets.flip named
    exact ⟨goal, same, boundary⟩
  · rw [branches] at named
    obtain ⟨goal, boundary, same, _⟩ := lands
    exact ⟨goal, (List.mem_singleton.1 named).trans same, boundary⟩

theorem Planted.place_lt (planted : Planted old place code) (member : (pos, located) ∈ old.entries) :
    place pos < code.size := by
  obtain ⟨image, is, run⟩ := planted.image member
  rcases run.inv with ⟨none, _⟩ | ⟨_, _, _, reads, _⟩
  · exact absurd none is.ne_nil
  · have := reads.length_pos
    have := reads.le_size
    omega

theorem Planted.arrives (planted : Planted old place code) (decoded : Listing.decode base = .ok old)
    (rooted : ∀ root ∈ roots, old.IsBoundary root.1) (extended : Pool.Extended pool pool')
    (sound : pool.Sound) (arrives : Arrives pool base roots pos level) :
    Arrives pool' code (raised place shift roots) (place pos) (level + shift) := by
  induction arrives with
  | root member => exact .root (List.mem_map.2 ⟨_, member, rfl⟩)
  | next arrives reads leaves ih =>
      have member := mem_of_reads decoded (arrives.isBoundary decoded planted.aimed rooted) reads
      rw [Int.add_right_comm]
      exact ih.through (planted.step extended sound member leaves)

/-- Places with depths that control comes to in the new body: those of the old instructions, and in a
widened branch the jump behind the condition. -/
inductive Mirrored (pool : Pool) (old : Listing) (place : Nat → Nat) (base code : Array UInt8)
    (roots : List (Nat × Int)) (shift : Int) : Nat → Int → Prop
  | planted {pos : Nat} {level : Int} (arrives : Arrives pool base roots pos level) :
      Mirrored pool old place base code roots shift (place pos) (level + shift)
  | between {pos next : Nat} {level change : Int} {located : Located}
      (arrives : Arrives pool base roots pos level) (reads : Reads base pos located)
      (leaves : located.Leaves pool pos next change) (shrinks : change ≤ 0)
      (jumps : Reads code (place pos + 3) ⟨5, .wideBranch Opcode.gotoW (place next)⟩) :
      Mirrored pool old place base code roots shift (place pos + 3) (level + change + shift)

theorem Planted.mirrored_next {located' : Located} {there : Nat} (planted : Planted old place code)
    (decoded : Listing.decode base = .ok old) (extended : Pool.Extended pool pool')
    (sound : pool.Sound) (member : (pos, located) ∈ old.entries)
    (known : (located.instruction.stackEffect? pool).isSome = true)
    (arrives : Arrives pool base roots pos level) (reads' : Reads code (place pos) located')
    (leaves : located'.Leaves pool' (place pos) there change) :
    Mirrored pool old place base code roots shift there (level + shift + change) := by
  have reads := reads_of_mem decoded member
  rw [Int.add_right_comm]
  obtain ⟨image, is, run⟩ := planted.image member
  rcases is.alike_or_conditional with ⟨located', rfl, alike⟩ |
    ⟨opcode, inverse, target, moved, branches, opposite, lands, rfl⟩
  · obtain ⟨_, first, behind⟩ := runs_singleton.1 run
    cases first.unique reads'
    obtain ⟨next, rfl, follows⟩ := alike.exists_leaves behind.symm extended sound known leaves
    exact .planted (arrives.next reads follows)
  · obtain ⟨length, instruction⟩ := located
    dsimp only at branches
    subst branches
    obtain ⟨conditional, conditional'⟩ := opposite.isConditional
    cases run with
    | step first rest =>
    obtain ⟨_, jumps, behind⟩ := runs_singleton.1 rest
    cases first.unique reads'
    obtain ⟨rfl, rfl | skips⟩ := (leaves_conditional conditional').1 leaves
    · obtain ⟨goal, _, rfl, rfl⟩ := lands
      have shrinks := (Opcode.growth_of_isConditional conditional').1
      exact .between arrives reads ((leaves_conditional conditional).2 ⟨opposite.growth.symm, .inr rfl⟩)
        shrinks jumps
    · obtain rfl : there = place (pos + length) := by
        have : place (pos + length) = place pos + 3 + 5 := behind
        omega
      exact .planted (arrives.next reads
        ((leaves_conditional conditional).2 ⟨opposite.growth.symm, .inl rfl⟩))

theorem Planted.mirrored (planted : Planted old place code) (decoded : Listing.decode base = .ok old)
    (rooted : ∀ root ∈ roots, old.IsBoundary root.1) (extended : Pool.Extended pool pool')
    (sound : pool.Sound)
    (measured : ∀ entry ∈ old.entries, Comes old.entries.toList (roots.map Prod.fst) entry.1 →
      (entry.2.instruction.stackEffect? pool).isSome = true)
    (arrives : Arrives pool' code (raised place shift roots) here level) :
    Mirrored pool old place base code roots shift here level := by
  induction arrives with
  | root member =>
      obtain ⟨root, known, same⟩ := List.mem_map.1 member
      cases same
      exact .planted (.root known)
  | next _ reads leaves ih =>
      cases ih with
      | @planted pos level arrives =>
          have boundary := arrives.isBoundary decoded planted.aimed rooted
          rcases boundary with rfl | ⟨located, member⟩
          -- Nothing is read at the end of the code.
          · have room := reads.length_pos
            have inside := reads.le_size
            rw [planted.stop] at inside
            omega
          · have known := measured _ member (arrives.comes decoded planted.aimed rooted)
            exact planted.mirrored_next decoded extended sound member known arrives reads leaves
      | between arrives first further shrinks jumps =>
          -- The jump completes the way that the old branch took, and changes nothing.
          cases jumps.unique reads
          obtain ⟨rfl, same⟩ := leaves_gotoW.1 leaves
          obtain rfl := Int.ofNat_inj.1 same
          rw [Int.add_zero]
          exact .planted (arrives.next first further)

theorem Mirrored.le (mirrored : Mirrored pool old place base code roots shift here level)
    (decoded : Listing.decode base = .ok old) (planted : Planted old place code)
    (rooted : ∀ root ∈ roots, old.IsBoundary root.1) (inside : here < code.size)
    (below : ∀ entry ∈ old.entries, ∀ level, Arrives pool base roots entry.1 level →
      level + shift ≤ limit) : level ≤ limit := by
  cases mirrored with
  | @planted pos level arrives =>
      rcases arrives.isBoundary decoded planted.aimed rooted with rfl | ⟨located, member⟩
      · rw [planted.stop] at inside
        exact absurd inside (Nat.lt_irrefl _)
      · exact below _ member _ arrives
  | between arrives reads _ shrinks =>
      have member := mem_of_reads decoded (arrives.isBoundary decoded planted.aimed rooted) reads
      have := below _ member _ arrives
      omega

theorem Opened.planted {moved : Relocation} {opened : Array UInt8} (moves : Opened old moved opened)
    (front : moved.gap.offset = 0) (exclusive : moved.gap.exclusive = true)
    (decoded : Listing.decode base = .ok old) (size : code.size = opened.size)
    (back : SameOn opened code (moved.place 0) opened.size) : Planted old moved.place code := by
  have land (pos : Nat) : moved.land pos = moved.place pos := by
    simp [Relocation.land, exclusive]
  have enter {pos : Nat} (later : pos ≠ 0) : moved.enter pos = moved.place pos := if_neg (front ▸ later)
  refine ⟨fun {pos located} member => ?_, moves.stop.trans size.symm⟩
  obtain ⟨image, is, run⟩ := moves.image member
  have room := (reads_of_mem decoded member).length_pos
  have last := lt_next_of_mem decoded member
  have boundary : old.IsBoundary pos := .inr ⟨located, member⟩
  rw [enter (by omega)] at run
  refine ⟨image, is.mono fun target landed lands => ?_, run.transfer fun i low high => ?_⟩
  · obtain ⟨goal, boundary, same, rfl⟩ := lands
    exact ⟨goal, boundary, same, congrArg Nat.cast (land goal)⟩
  · have above : moved.place 0 ≤ moved.place pos := by
      rcases Nat.eq_zero_or_pos pos with rfl | later
      · exact Nat.le_refl _
      · have := moves.ordered (isBoundary_zero decoded) boundary later
        rw [enter (Nat.ne_of_gt later)] at this
        exact Nat.le_of_lt this
    have inside := moves.ordered boundary (.inl rfl) last
    rw [enter (by omega), moves.stop] at inside
    have below := run.stop_le_size (Nat.le_of_lt inside)
    exact back i (above.trans low) (by omega)

end Planted

end Code
end ClassSplice
