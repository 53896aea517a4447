import ClassSplice.Proofs.Code.StackEffect

namespace ClassSplice.Code

/-- Where control may go from an instruction at `pos`, and how much the depth changes on the way. -/
inductive Located.Leaves (pool : Pool) (pos : Nat) (located : Located) : Nat → Int → Prop
  | onward {effect : Int} (measured : located.instruction.stackEffect? pool = some effect)
      (falls : located.instruction.fallsThrough = true) :
      Leaves pool pos located (pos + located.length) (effect - located.instruction.returnWidth)
  | jump {effect : Int} {target : Nat} (measured : located.instruction.stackEffect? pool = some effect)
      (named : (target : Int) ∈ located.instruction.targets) : Leaves pool pos located target effect

/-- Control may come to a place with this depth, if it starts at one of the roots, each with its own. -/
inductive Arrives (pool : Pool) (code : Array UInt8) (roots : List (Nat × Int)) : Nat → Int → Prop
  | root {pos : Nat} {level : Int} (member : (pos, level) ∈ roots) : Arrives pool code roots pos level
  | next {pos next : Nat} {level change : Int} {located : Located}
      (arrives : Arrives pool code roots pos level) (reads : Reads code pos located)
      (leaves : located.Leaves pool pos next change) : Arrives pool code roots next (level + change)

def entrances (code : Code) : List (Nat × Int) :=
  (0, 0) :: code.handlers.map fun handler => (handler.target.toNat, 1)

section Leaves

variable {pool : Pool} {pos next : Nat} {change : Int} {located : Located}

theorem Located.Leaves.follows (leaves : located.Leaves pool pos next change) :
    (next : Int) ∈ located.successors pos := by
  unfold Located.successors
  cases leaves with
  | onward _ falls =>
      rw [if_pos falls]
      exact List.mem_append_left _ (List.mem_singleton_self _)
  | jump _ named => exact List.mem_append_right _ named

theorem Located.exists_leaves (measured : (located.instruction.stackEffect? pool).isSome = true)
    (follows : (next : Int) ∈ located.successors pos) : ∃ change, located.Leaves pool pos next change := by
  obtain ⟨effect, measured⟩ := Option.isSome_iff_exists.1 measured
  rcases List.mem_append.1 follows with behind | named
  · split at behind
    · rename_i falls
      have same : next = pos + located.length := by
        have := List.mem_singleton.1 behind
        omega
      subst same
      exact ⟨_, .onward measured falls⟩
    · cases behind
  · exact ⟨effect, .jump measured named⟩

theorem Located.Leaves.eq_of_plain {bytes : List UInt8} {effect : Int}
    (leaves : located.Leaves pool pos next change) (plain : located.instruction = .plain bytes)
    (measured : located.instruction.stackEffect? pool = some effect) :
    next = pos + located.length ∧ change = effect ∧ located.instruction.fallsThrough = true := by
  cases leaves with
  | onward measured' falls =>
      cases measured.symm.trans measured'
      refine ⟨rfl, ?_, falls⟩
      rw [plain]
      exact Int.sub_zero _
  | jump _ named =>
      rw [plain] at named
      cases named

end Leaves

section Arrives

variable {pool : Pool} {code : Array UInt8} {roots roots' : List (Nat × Int)} {pos here : Nat}
  {level level' : Int}

theorem Arrives.mono (arrives : Arrives pool code roots pos level) (more : roots ⊆ roots') :
    Arrives pool code roots' pos level := by
  induction arrives with
  | root member => exact .root (more member)
  | next _ reads leaves ih => exact ih.next reads leaves

theorem Arrives.through (arrives : Arrives pool code roots pos level)
    (further : Arrives pool code [(pos, level)] here level') : Arrives pool code roots here level' := by
  induction further with
  | root member =>
      cases List.mem_singleton.1 member
      exact arrives
  | next _ reads leaves ih => exact ih.next reads leaves

theorem Arrives.exists_root (arrives : Arrives pool code roots pos level) :
    ∃ root ∈ roots, Arrives pool code [root] pos level := by
  induction arrives with
  | root member => exact ⟨_, member, .root (List.mem_singleton_self _)⟩
  | next _ reads leaves ih =>
      obtain ⟨root, member, arrives⟩ := ih
      exact ⟨root, member, arrives.next reads leaves⟩

variable {listing : Listing}

theorem Arrives.isBoundary (arrives : Arrives pool code roots pos level)
    (decoded : Listing.decode code = .ok listing) (aimed : listing.Aimed)
    (rooted : ∀ root ∈ roots, listing.IsBoundary root.1) : listing.IsBoundary pos := by
  induction arrives with
  | root member => exact rooted _ member
  | next _ reads leaves ih =>
      have member := mem_of_reads decoded ih reads
      cases leaves with
      | onward => exact isBoundary_behind decoded member
      | jump _ named =>
          obtain ⟨goal, same, boundary⟩ := aimed _ member _ named
          exact Int.natCast_inj.1 same ▸ boundary

theorem Arrives.comes (arrives : Arrives pool code roots pos level)
    (decoded : Listing.decode code = .ok listing) (aimed : listing.Aimed)
    (rooted : ∀ root ∈ roots, listing.IsBoundary root.1) :
    Comes listing.entries.toList (roots.map Prod.fst) pos := by
  induction arrives with
  | root member => exact .root (List.mem_map_of_mem member)
  | next arrives reads leaves ih =>
      have member := mem_of_reads decoded (arrives.isBoundary decoded aimed rooted) reads
      exact ih.next (Array.mem_toList_iff.2 member) leaves.follows

theorem Comes.mono {entries : List (Nat × Located)} {starts starts' : List Nat}
    (comes : Comes entries starts pos) (more : starts ⊆ starts') : Comes entries starts' pos := by
  induction comes with
  | root member => exact .root (more member)
  | next _ member follows ih => exact ih.next member follows

theorem Comes.arrives (comes : Comes listing.entries.toList (roots.map Prod.fst) pos)
    (decoded : Listing.decode code = .ok listing)
    (measured : ∀ entry ∈ listing.entries, Comes listing.entries.toList (roots.map Prod.fst) entry.1 →
      (entry.2.instruction.stackEffect? pool).isSome = true) :
    ∃ level, Arrives pool code roots pos level := by
  induction comes with
  | root member =>
      obtain ⟨⟨pos, level⟩, known, rfl⟩ := List.mem_map.1 member
      exact ⟨level, .root known⟩
  | next comes member follows ih =>
      obtain ⟨level, arrives⟩ := ih
      have member := Array.mem_toList_iff.1 member
      obtain ⟨change, leaves⟩ := Located.exists_leaves (measured _ member comes) follows
      exact ⟨_, arrives.next (reads_of_mem decoded member) leaves⟩

theorem Levels.eq_of_arrives {start : Nat} {first : Int} {catches : List Nat} {depth : Nat → Int}
    (levels : Levels pool listing.entries.toList start first catches depth)
    (decoded : Listing.decode code = .ok listing) (aimed : listing.Aimed)
    (rooted : ∀ root ∈ roots, listing.IsBoundary root.1)
    (among : ∀ root ∈ roots, root = (start, first) ∨ root.1 ∈ catches ∧ root.2 = 1)
    (arrives : Arrives pool code roots pos level)
    (member : pos ∈ listing.entries.toList.map Prod.fst) : depth pos = level := by
  have starts : roots.map Prod.fst ⊆ start :: catches := by
    intro pos member
    obtain ⟨root, known, rfl⟩ := List.mem_map.1 member
    rcases among root known with rfl | ⟨caught, _⟩
    · exact List.mem_cons_self
    · exact List.mem_cons_of_mem _ caught
  -- Along the way: `levels` changes the depth by as much as each step does.
  induction arrives with
  | root known =>
      rcases among _ known with first | ⟨caught, one⟩
      · cases first
        exact levels.entrance
      · exact (levels.caught _ caught).trans one.symm
  | next arrives reads leaves ih =>
      have comes := (arrives.comes decoded aimed rooted).mono starts
      have here := Array.mem_toList_iff.2
        (mem_of_reads decoded (arrives.isBoundary decoded aimed rooted) reads)
      have same := ih (List.mem_map_of_mem here)
      cases leaves with
      | onward measured falls =>
          rw [levels.onward comes here measured falls member, same]
          exact Int.add_sub_assoc ..
      | jump measured named => rw [levels.jump comes here measured named member, same]

/-- Each instruction that control may come to has one depth, and none is above the limit of the body. -/
structure Steady (pool : Pool) (code : Code) (listing : Listing) (depth : Nat → Int) : Prop where
  levels : Levels pool listing.entries.toList 0 0 (code.handlers.map (·.target.toNat)) depth
  measured : ∀ entry ∈ listing.entries,
    Comes listing.entries.toList (0 :: code.handlers.map (·.target.toNat)) entry.1 →
      (entry.2.instruction.stackEffect? pool).isSome = true
  bounded : ∀ entry ∈ listing.entries,
    Comes listing.entries.toList (0 :: code.handlers.map (·.target.toNat)) entry.1 →
      depth entry.1 ≤ code.maxStack.toNat

/-- Control comes to no place inside the body with a depth above its limit. -/
def Bounded (pool : Pool) (code : Code) : Prop :=
  ∀ pos level, Arrives pool code.bytes (entrances code) pos level → pos < code.bytes.size →
    level ≤ code.maxStack.toNat

theorem fst_entrances (code : Code) :
    (entrances code).map Prod.fst = 0 :: code.handlers.map (·.target.toNat) := by
  simp [entrances]

theorem start_subset_entrances (code : Code) : [(0, 0)] ⊆ entrances code :=
  List.cons_subset.2 ⟨List.mem_cons_self, List.nil_subset _⟩

theorem Comes.of_entrances {body : Code} {entries : List (Nat × Located)}
    (comes : Comes entries (roots.map Prod.fst) pos) (among : roots ⊆ entrances body) :
    Comes entries (0 :: body.handlers.map (·.target.toNat)) pos :=
  comes.mono (fst_entrances body ▸ List.map_subset Prod.fst among)

theorem isBoundary_of_mem_entrances {body : Code} (decoded : Listing.decode body.bytes = .ok listing)
    (handled : ∀ handler ∈ body.handlers, listing.IsBoundary handler.target.toNat) :
    ∀ root ∈ entrances body, listing.IsBoundary root.1 := by
  intro root member
  rcases List.mem_cons.1 member with rfl | caught
  · exact isBoundary_zero decoded
  · obtain ⟨handler, known, rfl⟩ := List.mem_map.1 caught
    exact handled handler known

theorem Steady.depth_eq {body : Code} {depth : Nat → Int} {located : Located}
    (steady : Steady pool body listing depth) (decoded : Listing.decode body.bytes = .ok listing)
    (aimed : listing.Aimed)
    (handled : ∀ handler ∈ body.handlers, listing.IsBoundary handler.target.toNat)
    (arrives : Arrives pool body.bytes (entrances body) pos level)
    (member : (pos, located) ∈ listing.entries) : depth pos = level := by
  refine steady.levels.eq_of_arrives decoded aimed (isBoundary_of_mem_entrances decoded handled) ?_
    arrives (List.mem_map_of_mem (Array.mem_toList_iff.2 member))
  intro root known
  refine (List.mem_cons.1 known).imp_right fun caught => ?_
  obtain ⟨handler, among, rfl⟩ := List.mem_map.1 caught
  exact ⟨List.mem_map_of_mem among, rfl⟩

/-- Instructions in a row that name no place, and the depths in front of the first and behind the
last, none of which is above a limit. -/
inductive Straight (pool : Pool) (limit : Int) : Int → List (Nat × Located) → Int → Prop
  | nil {level : Int} (below : level ≤ limit) : Straight pool limit level [] level
  | cons {level last effect : Int} {pos length : Nat} {bytes : List UInt8}
      {entries : List (Nat × Located)} (below : level ≤ limit)
      (measured : (Instruction.plain bytes).stackEffect? pool = some effect)
      (rest : Straight pool limit (level + effect) entries last) :
      Straight pool limit level ((pos, ⟨length, .plain bytes⟩) :: entries) last

variable {limit last : Int} {stop : Nat} {entries : List (Nat × Located)}

theorem Arrives.cases_of_plain {located : Located} {bytes : List UInt8} {effect : Int}
    (arrives : Arrives pool code [(pos, level)] here level') (reads : Reads code pos located)
    (plain : located.instruction = .plain bytes)
    (measured : located.instruction.stackEffect? pool = some effect) :
    here = pos ∧ level' = level ∨ located.instruction.fallsThrough = true ∧
      Arrives pool code [(pos + located.length, level + effect)] here level' := by
  -- Once control has left the first instruction, the rest of the way starts behind it.
  induction arrives with
  | root member =>
      cases List.mem_singleton.1 member
      exact .inl ⟨rfl, rfl⟩
  | next _ reads' leaves ih =>
      rcases ih with ⟨rfl, rfl⟩ | ⟨falls, arrives⟩
      · cases reads'.unique reads
        obtain ⟨rfl, rfl, falls⟩ := leaves.eq_of_plain plain measured
        exact .inr ⟨falls, .root (List.mem_singleton_self _)⟩
      · exact .inr ⟨falls, arrives.next reads' leaves⟩

theorem Straight.le {level : Int} (straight : Straight pool limit level entries last) :
    level ≤ limit := by
  cases straight with
  | nil below | cons below => exact below

theorem Straight.arrives (straight : Straight pool limit level entries last)
    (runs : Runs code pos entries stop) (arrives : Arrives pool code [(pos, level)] here level') :
    level' ≤ limit ∨ (∀ entry ∈ entries, entry.2.instruction.fallsThrough = true) ∧
      Arrives pool code [(stop, last)] here level' := by
  induction straight generalizing pos with
  | nil below =>
      cases runs
      exact .inr ⟨List.forall_mem_nil _, arrives⟩
  | cons below measured rest ih =>
      cases runs with
      | step reads runs =>
      rcases arrives.cases_of_plain reads rfl measured with ⟨_, rfl⟩ | ⟨falls, arrives⟩
      · exact .inl below
      · refine (ih runs arrives).imp_right fun ⟨through, arrives⟩ => ⟨?_, arrives⟩
        exact List.forall_mem_cons.2 ⟨falls, through⟩

theorem Straight.runs_through (straight : Straight pool limit level entries last)
    (runs : Runs code pos entries stop)
    (through : ∀ entry ∈ entries, entry.2.instruction.fallsThrough = true) :
    Arrives pool code [(pos, level)] stop last := by
  induction straight generalizing pos with
  | nil =>
      cases runs
      exact .root (List.mem_singleton_self _)
  | @cons level last effect start length bytes entries below measured rest ih =>
      cases runs with
      | step reads runs =>
      obtain ⟨falls, through⟩ := List.forall_mem_cons.1 through
      have first : Arrives pool code [(start, level)] _ (level + (effect - 0)) :=
        (Arrives.root (List.mem_singleton_self _)).next reads (.onward measured falls)
      rw [Int.sub_zero] at first
      exact first.through (ih runs through)

end Arrives

end ClassSplice.Code
