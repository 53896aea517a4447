import ClassSplice.Proofs.Code.Flow
import ClassSplice.Proofs.Layout.Placement

namespace ClassSplice.Code

theorem Opcode.isShortBranch_inverted? {opcode inverse : Opcode}
    (inverted : opcode.inverted? = some inverse) :
    opcode.isConditional = true ∧ inverse.isShortBranch = true := by
  have := forall_of_fin (fun opcode => opcode.inverted?.all fun inverse =>
    opcode.isConditional && inverse.isShortBranch) (by decide +kernel) opcode
  simpa [inverted] using this

theorem Opcode.jump_of_inverted? {opcode : Opcode} (short : opcode.isShortBranch = true)
    (inverted : opcode.inverted? = none) :
    opcode.isConditional = false ∧
      ((opcode = goto ∧ opcode.widened = gotoW) ∨ (opcode = jsr ∧ opcode.widened = jsrW)) := by
  have := forall_of_fin (fun opcode => !opcode.isShortBranch || opcode.inverted?.isSome ||
    (!opcode.isConditional && decide ((opcode = goto ∧ opcode.widened = gotoW) ∨
      (opcode = jsr ∧ opcode.widened = jsrW)))) (by decide +kernel) opcode
  simpa [short, inverted] using this

/-- The instructions that may stand at `pos` in place of one whose targets have moved: the same
instruction, or a wider form of a branch of 16 bits. -/
inductive Image (Lands : Int → Int → Prop) (pos : Nat) : Instruction → List (Nat × Located) → Prop
  | plain (bytes : List UInt8) : Image Lands pos (.plain bytes) [(pos, ⟨bytes.length, .plain bytes⟩)]
  | branch {opcode : Opcode} {target moved : Int} (landed : Lands target moved) :
      Image Lands pos (.branch opcode target) [(pos, ⟨3, .branch opcode moved⟩)]
  | goto {target moved : Int} (landed : Lands target moved) :
      Image Lands pos (.branch Opcode.goto target) [(pos, ⟨5, .wideBranch Opcode.gotoW moved⟩)]
  | jsr {target moved : Int} (landed : Lands target moved) :
      Image Lands pos (.branch Opcode.jsr target) [(pos, ⟨5, .wideBranch Opcode.jsrW moved⟩)]
  /-- The branch of the opposite condition skips a jump to the target. -/
  | conditional {opcode inverse : Opcode} {target moved : Int} (opposite : opcode.Opposite inverse)
      (landed : Lands target moved) :
      Image Lands pos (.branch opcode target)
        [(pos, ⟨3, .branch inverse (pos + 8)⟩), (pos + 3, ⟨5, .wideBranch Opcode.gotoW moved⟩)]
  | wideBranch {opcode : Opcode} {target moved : Int} (landed : Lands target moved) :
      Image Lands pos (.wideBranch opcode target) [(pos, ⟨5, .wideBranch opcode moved⟩)]
  | tableSwitch {default moved : Int} {low high : Int32} {targets targets' : List Int}
      (landed : Lands default moved) (each : List.Forall₂ Lands targets targets') :
      Image Lands pos (.tableSwitch default low high targets)
        [(pos, ⟨1 + switchPadding pos + 12 + 4 * targets.length,
          .tableSwitch moved low high targets'⟩)]
  | lookupSwitch {default moved : Int} {cases cases' : List (Int32 × Int)}
      (landed : Lands default moved)
      (each : List.Forall₂ (fun old new => old.1 = new.1 ∧ Lands old.2 new.2) cases cases') :
      Image Lands pos (.lookupSwitch default cases)
        [(pos, ⟨1 + switchPadding pos + 8 + 8 * cases.length, .lookupSwitch moved cases'⟩)]

theorem Image.mono {Lands Lands' : Int → Int → Prop} {pos : Nat} {instruction : Instruction}
    {image : List (Nat × Located)} (weaker : ∀ target moved, Lands target moved → Lands' target moved)
    (is : Image Lands pos instruction image) : Image Lands' pos instruction image := by
  cases is with
  | plain bytes => exact .plain bytes
  | branch landed => exact .branch (weaker _ _ landed)
  | goto landed => exact .goto (weaker _ _ landed)
  | jsr landed => exact .jsr (weaker _ _ landed)
  | conditional opposite landed => exact .conditional opposite (weaker _ _ landed)
  | wideBranch landed => exact .wideBranch (weaker _ _ landed)
  | tableSwitch landed each => exact .tableSwitch (weaker _ _ landed) (each.imp weaker)
  | lookupSwitch landed each =>
      exact .lookupSwitch (weaker _ _ landed) (each.imp fun _ _ both => ⟨both.1, weaker _ _ both.2⟩)

theorem Image.eq_of_plain {Lands : Int → Int → Prop} {pos here length : Nat}
    {instruction : Instruction} {image : List (Nat × Located)} {bytes : List UInt8}
    (is : Image Lands pos instruction image) (member : (here, ⟨length, .plain bytes⟩) ∈ image) :
    here = pos ∧ instruction = .plain bytes ∧ image = [(pos, ⟨bytes.length, .plain bytes⟩)] := by
  cases is with
  | plain bytes' =>
      cases List.mem_singleton.1 member
      exact ⟨rfl, rfl, rfl⟩
  | branch | goto | jsr | wideBranch | tableSwitch | lookupSwitch =>
      cases List.mem_singleton.1 member
  | conditional =>
      rcases List.mem_cons.1 member with same | member
      · cases same
      · cases List.mem_singleton.1 member

theorem Image.refl {Lands : Int → Int → Prop} {pos : Nat} {located : Located}
    (length : located.length = located.instruction.lengthAt pos)
    (landed : ∀ target, Lands target target) :
    Image Lands pos located.instruction [(pos, located)] := by
  obtain ⟨_, instruction⟩ := located
  dsimp only at length
  subst length
  have each (targets : List Int) : List.Forall₂ Lands targets targets :=
    List.forall₂_same.2 fun target _ => landed target
  cases instruction with
  | plain bytes => exact .plain bytes
  | branch opcode target => exact .branch (landed target)
  | wideBranch opcode target => exact .wideBranch (landed target)
  | tableSwitch default low high targets => exact .tableSwitch (landed default) (each targets)
  | lookupSwitch default cases =>
      exact .lookupSwitch (landed default) (List.forall₂_same.2 fun pair _ => ⟨rfl, landed pair.2⟩)

theorem Image.trans {Lands Lands' Lands'' : Int → Int → Prop} {place : Nat → Nat} {pos : Nat}
    {instruction : Instruction} {image : List (Nat × Located)} {images : Nat → List (Nat × Located)}
    (is : Image Lands pos instruction image)
    (each : ∀ entry ∈ image, Image Lands' (place entry.1) entry.2.instruction (images entry.1))
    (compose : ∀ target middle landed, Lands target middle → Lands' middle landed →
      Lands'' target landed)
    (skip : ∀ opcode jump target, image = [(pos, ⟨3, .branch opcode (pos + 8)⟩),
      (pos + 3, ⟨5, .wideBranch jump target⟩)] →
      images pos = [(place pos, ⟨3, .branch opcode (place pos + 8)⟩)] ∧
        place (pos + 3) = place pos + 3) :
    Image Lands'' (place pos) instruction (image.flatMap fun entry => images entry.1) := by
  have alone {located : Located}
      (each : ∀ entry ∈ [(pos, located)],
        Image Lands' (place entry.1) entry.2.instruction (images entry.1)) :
      Image Lands' (place pos) located.instruction
        ([(pos, located)].flatMap fun entry => images entry.1) := by
    rw [List.flatMap_singleton]
    exact each _ List.mem_cons_self
  cases is with
  | plain bytes =>
      have next := alone each
      generalize List.flatMap _ _ = image' at next ⊢
      cases next
      exact .plain bytes
  | branch landed =>
      have next := alone each
      generalize List.flatMap _ _ = image' at next ⊢
      cases next with
      | branch landed' => exact .branch (compose _ _ _ landed landed')
      | goto landed' => exact .goto (compose _ _ _ landed landed')
      | jsr landed' => exact .jsr (compose _ _ _ landed landed')
      | conditional opposite landed' => exact .conditional opposite (compose _ _ _ landed landed')
  | goto landed =>
      have next := alone each
      generalize List.flatMap _ _ = image' at next ⊢
      cases next with
      | wideBranch landed' => exact .goto (compose _ _ _ landed landed')
  | jsr landed =>
      have next := alone each
      generalize List.flatMap _ _ = image' at next ⊢
      cases next with
      | wideBranch landed' => exact .jsr (compose _ _ _ landed landed')
  | conditional opposite landed =>
      obtain ⟨same, behind⟩ := skip _ _ _ rfl
      have next := each _ (List.mem_cons_of_mem _ List.mem_cons_self)
      rw [List.flatMap_cons, List.flatMap_singleton, same]
      dsimp only at next ⊢
      rw [behind] at next
      generalize images (pos + 3) = image' at next ⊢
      cases next with
      | wideBranch landed' => exact .conditional opposite (compose _ _ _ landed landed')
  | wideBranch landed =>
      have next := alone each
      generalize List.flatMap _ _ = image' at next ⊢
      cases next with
      | wideBranch landed' => exact .wideBranch (compose _ _ _ landed landed')
  | tableSwitch landed targets =>
      have next := alone each
      generalize List.flatMap _ _ = image' at next ⊢
      cases next with
      | tableSwitch landed' targets' =>
          rw [← targets.length_eq]
          exact .tableSwitch (compose _ _ _ landed landed') (forall₂_trans compose targets targets')
  | lookupSwitch landed cases =>
      have next := alone each
      generalize List.flatMap _ _ = image' at next ⊢
      cases next with
      | lookupSwitch landed' cases' =>
          rw [← cases.length_eq]
          refine .lookupSwitch (compose _ _ _ landed landed') (forall₂_trans ?_ cases cases')
          intro old middle new first second
          exact ⟨first.1.trans second.1, compose _ _ _ first.2 second.2⟩

theorem Image.forall_targets {Lands : Int → Int → Prop} {Holds : Int → Prop} {pos : Nat}
    {instruction : Instruction} {image : List (Nat × Located)}
    (is : Image Lands pos instruction image)
    (landed : ∀ target moved, Lands target moved → Holds moved) (behind : Holds (pos + 8)) :
    ∀ entry ∈ image, ∀ target ∈ entry.2.instruction.targets, Holds target := by
  intro entry member target named
  cases is with
  | plain bytes =>
      rw [List.mem_singleton.1 member] at named
      cases named
  | branch moved | goto moved | jsr moved | wideBranch moved =>
      rw [List.mem_singleton.1 member] at named
      rw [List.mem_singleton.1 named]
      exact landed _ _ moved
  | conditional opposite moved =>
      rcases List.mem_cons.1 member with rfl | member
      · rw [List.mem_singleton.1 named]
        exact behind
      · rw [List.mem_singleton.1 member] at named
        rw [List.mem_singleton.1 named]
        exact landed _ _ moved
  | tableSwitch moved each =>
      rw [List.mem_singleton.1 member] at named
      rcases List.mem_cons.1 named with rfl | named
      · exact landed _ _ moved
      · obtain ⟨old, _, moved⟩ := forall₂_mem_right each named
        exact landed _ _ moved
  | lookupSwitch moved each =>
      rw [List.mem_singleton.1 member] at named
      rcases List.mem_cons.1 named with rfl | named
      · exact landed _ _ moved
      · obtain ⟨pair, known, rfl⟩ := List.mem_map.1 named
        obtain ⟨old, _, moved⟩ := forall₂_mem_right each known
        exact landed _ _ moved.2

namespace Layout

def Lands (layout : Layout) (target moved : Int) : Prop :=
  ∃ old new : Nat, target = old ∧ layout.relocate old = .ok new ∧ moved = new

section Encode

variable {layout : Layout} {pos here : Nat}

theorem displacement_eq_ok {target distance : Int} :
    layout.displacement pos here target = .ok distance ↔
      ∃ moved, layout.Lands target moved ∧ distance = moved - here := by
  simp only [displacement, relocateTarget, bind_eq_ok, pure_eq_ok, Lands]
  constructor
  · rintro ⟨new, relocated, rfl⟩
    split at relocated
    · cases relocated
    · exact ⟨new, ⟨target.toNat, new, by omega, relocated, rfl⟩, rfl⟩
  · rintro ⟨moved, ⟨old, new, rfl, relocated, rfl⟩, rfl⟩
    refine ⟨new, ?_, rfl⟩
    rw [if_neg (by omega), Int.toNat_natCast]
    exact relocated

theorem mapM_displacement {targets distances : List Int}
    (moved : targets.mapM (layout.displacement pos here) = .ok distances) :
    ∃ targets', List.Forall₂ layout.Lands targets targets' ∧
      distances = targets'.map fun target => target - (here : Int) := by
  rw [mapM_eq_ok] at moved
  induction moved with
  | nil => exact ⟨[], .nil, rfl⟩
  | cons first _ ih =>
      obtain ⟨target, landed, rfl⟩ := displacement_eq_ok.1 first
      obtain ⟨targets', each, rfl⟩ := ih
      exact ⟨target :: targets', .cons landed each, rfl⟩

theorem mapM_cases {cases distances : List (Int32 × Int)}
    (moved : cases.mapM (fun (key, target) => do
      return (key, ← layout.displacement pos here target)) = .ok distances) :
    ∃ cases' : List (Int32 × Int),
      List.Forall₂ (fun old new => old.1 = new.1 ∧ layout.Lands old.2 new.2) cases cases' ∧
      distances = cases'.map fun (key, target) => (key, target - (here : Int)) := by
  rw [mapM_eq_ok] at moved
  induction moved with
  | nil => exact ⟨[], .nil, rfl⟩
  | @cons one _ _ _ first _ ih =>
      simp only [bind_eq_ok, pure_eq_ok] at first
      obtain ⟨distance, first, rfl⟩ := first
      obtain ⟨target, landed, rfl⟩ := displacement_eq_ok.1 first
      obtain ⟨cases', each, rfl⟩ := ih
      exact ⟨(one.1, target) :: cases', .cons ⟨rfl, landed⟩ each, rfl⟩

theorem runs_spell (instruction : Instruction) {code : Array UInt8}
    (wellFormed : instruction.WellFormed) (inReach : instruction.InReach here)
    (held : Holds code here (instruction.spell here)) :
    Runs code here [(here, ⟨instruction.lengthAt here, instruction⟩)]
      (here + (instruction.spell here).length) := by
  rw [Instruction.length_spell]
  exact .single (reads_spell wellFormed inReach held)

/-- What is written for an instruction takes the room that the layout gives it, and is read as an
image of it. -/
def Writes (layout : Layout) (pos here : Nat) (wide : Bool) (instruction : Instruction)
    (bytes : List UInt8) : Prop :=
  bytes.length = (Located.mk (instruction.lengthAt pos) instruction).lengthAt pos here wide ∧
    ∃ image, Image layout.Lands here instruction image ∧
      ∀ code, Holds code here bytes → Runs code here image (here + bytes.length)

theorem writes_branch {opcode : Opcode} {target distance : Int} {bytes : List UInt8}
    (short : opcode.isShortBranch = true)
    (displaced : layout.displacement pos here target = .ok distance) (fits : isShort distance = true)
    (encoded : layout.encode pos here false (.branch opcode target) = .ok bytes) :
    layout.Writes pos here false (.branch opcode target) bytes := by
  simp only [encode, Bool.false_eq_true, if_false, bind_eq_ok, pure_eq_ok] at encoded
  obtain ⟨distance', displaced', rfl⟩ := encoded
  cases displaced'.symm.trans displaced
  obtain ⟨moved, landed, rfl⟩ := displacement_eq_ok.1 displaced
  refine ⟨by simp [Located.lengthAt, Instruction.lengthAt], _, .branch landed, fun code held => ?_⟩
  exact runs_spell (.branch opcode moved) short fits held

section Far

variable {target moved : Int} {bytes : List UInt8} (inCode : here ≤ maxLength)
  (bounded : ∀ old new, layout.relocate old = .ok new → new ≤ maxLength)

include bounded in
theorem Lands.inReach (landed : layout.Lands target moved) {from' : Nat}
    (close : from' ≤ maxLength + 3) :
    -2147483648 ≤ moved - from' ∧ moved - from' ≤ 2147483647 := by
  obtain ⟨old, new, _, relocated, rfl⟩ := landed
  have := bounded old new relocated
  simp only [maxLength] at this close
  omega

include inCode bounded

theorem Lands.wideInReach {opcode : Opcode} (landed : layout.Lands target moved) :
    (Instruction.wideBranch opcode moved).InReach here := by
  intro target' member
  rw [List.mem_singleton.1 member]
  exact Lands.inReach bounded landed (by omega)

theorem writes_wide {opcode : Opcode} (short : opcode.isShortBranch = true)
    (encoded : layout.encode pos here true (.branch opcode target) = .ok bytes) :
    layout.Writes pos here true (.branch opcode target) bytes := by
  simp only [encode, if_true] at encoded
  cases inverted : opcode.inverted? with
  | none =>
      obtain ⟨unconditional, jump⟩ := Opcode.jump_of_inverted? short inverted
      simp only [inverted, bind_eq_ok, pure_eq_ok] at encoded
      obtain ⟨distance, displaced, rfl⟩ := encoded
      obtain ⟨moved, landed, rfl⟩ := displacement_eq_ok.1 displaced
      refine ⟨by simp [Located.lengthAt, unconditional], ?_⟩
      have reach {opcode : Opcode} : (Instruction.wideBranch opcode moved).InReach here :=
        Lands.wideInReach inCode bounded landed
      obtain ⟨rfl, widened⟩ | ⟨rfl, widened⟩ := jump
      · refine ⟨_, .goto landed, fun code held => ?_⟩
        rw [widened] at held ⊢
        exact runs_spell (.wideBranch Opcode.gotoW moved) rfl reach held
      · refine ⟨_, .jsr landed, fun code held => ?_⟩
        rw [widened] at held ⊢
        exact runs_spell (.wideBranch Opcode.jsrW moved) rfl reach held
  | some inverse =>
      obtain ⟨conditional, shortInverse⟩ := Opcode.isShortBranch_inverted? inverted
      simp only [inverted, bind_eq_ok, pure_eq_ok] at encoded
      obtain ⟨distance, displaced, rfl⟩ := encoded
      obtain ⟨moved, landed, rfl⟩ := displacement_eq_ok.1 displaced
      refine ⟨by simp [Located.lengthAt, conditional], _,
        .conditional (Opcode.opposite_inverted? inverted) landed, fun code held => ?_⟩
      have skip : ((here : Int) + 8 - here) = 8 := by omega
      have first : Holds code here ((Instruction.branch inverse (here + 8)).spell here) ∧
          Holds code (here + 3) ((Instruction.wideBranch Opcode.gotoW moved).spell (here + 3)) := by
        simpa [Instruction.spell, skip] using holds_append.1 held
      have skipped := runs_spell (.branch inverse (here + 8)) shortInverse
        (by simp [Instruction.InReach, skip, isShort]) first.1
      have jump := runs_spell (.wideBranch Opcode.gotoW moved) rfl
        (fun target' member => by
          rw [List.mem_singleton.1 member]
          exact Lands.inReach bounded landed (by omega)) first.2
      simpa [Instruction.spell, Instruction.lengthAt, Nat.add_assoc] using skipped.append jump

theorem writes_wideBranch {opcode : Opcode} {wide : Bool}
    (wellFormed : (Instruction.wideBranch opcode target).WellFormed)
    (encoded : layout.encode pos here wide (.wideBranch opcode target) = .ok bytes) :
    layout.Writes pos here wide (.wideBranch opcode target) bytes := by
  simp only [encode, bind_eq_ok, pure_eq_ok] at encoded
  obtain ⟨distance, displaced, rfl⟩ := encoded
  obtain ⟨moved, landed, rfl⟩ := displacement_eq_ok.1 displaced
  refine ⟨by simp [Located.lengthAt, Instruction.lengthAt], _, .wideBranch landed, fun code held => ?_⟩
  exact runs_spell (.wideBranch opcode moved) wellFormed (Lands.wideInReach inCode bounded landed) held

theorem writes_tableSwitch {low high : Int32} {targets : List Int} {wide : Bool}
    (wellFormed : (Instruction.tableSwitch target low high targets).WellFormed)
    (encoded : layout.encode pos here wide (.tableSwitch target low high targets) = .ok bytes) :
    layout.Writes pos here wide (.tableSwitch target low high targets) bytes := by
  simp only [encode, bind_eq_ok, pure_eq_ok] at encoded
  obtain ⟨distance, displaced, distances, displacedAll, rfl⟩ := encoded
  obtain ⟨moved, landed, rfl⟩ := displacement_eq_ok.1 displaced
  obtain ⟨targets', each, rfl⟩ := mapM_displacement displacedAll
  have count := each.length_eq
  rw [List.flatMap_map]
  show ((Instruction.tableSwitch moved low high targets').spell here).length = _ ∧ _
  have wellFormed' : (Instruction.tableSwitch moved low high targets').WellFormed :=
    ⟨wellFormed.1, count ▸ wellFormed.2⟩
  have reach : (Instruction.tableSwitch moved low high targets').InReach here := by
    intro target' member
    obtain rfl | member := List.mem_cons.1 member
    · exact Lands.inReach bounded landed (by omega)
    · obtain ⟨target, _, landed⟩ := forall₂_mem_right each member
      exact Lands.inReach bounded landed (by omega)
  refine ⟨?_, _, .tableSwitch landed each, fun code held => ?_⟩
  · rw [Instruction.length_spell]
    simp only [Located.lengthAt, Instruction.lengthAt, count]
    omega
  · rw [count]
    exact runs_spell (.tableSwitch moved low high targets') wellFormed' reach held

theorem writes_lookupSwitch {cases : List (Int32 × Int)} {wide : Bool}
    (wellFormed : (Instruction.lookupSwitch target cases).WellFormed)
    (encoded : layout.encode pos here wide (.lookupSwitch target cases) = .ok bytes) :
    layout.Writes pos here wide (.lookupSwitch target cases) bytes := by
  simp only [encode, bind_eq_ok, pure_eq_ok] at encoded
  obtain ⟨distance, displaced, distances, displacedAll, rfl⟩ := encoded
  obtain ⟨moved, landed, rfl⟩ := displacement_eq_ok.1 displaced
  obtain ⟨cases', each, rfl⟩ := mapM_cases displacedAll
  have count := each.length_eq
  rw [List.flatMap_map, count]
  show ((Instruction.lookupSwitch moved cases').spell here).length = _ ∧ _
  have wellFormed' : (Instruction.lookupSwitch moved cases').WellFormed := by
    show (cases'.length : Int) ≤ _
    rw [← count]
    exact wellFormed
  have reach : (Instruction.lookupSwitch moved cases').InReach here := by
    intro target' member
    obtain rfl | member := List.mem_cons.1 member
    · exact Lands.inReach bounded landed (by omega)
    · obtain ⟨pair, listed, rfl⟩ := List.mem_map.1 member
      obtain ⟨old, _, _, landed⟩ := forall₂_mem_right each listed
      exact Lands.inReach bounded landed (by omega)
  refine ⟨?_, _, .lookupSwitch landed each, fun code held => ?_⟩
  · rw [Instruction.length_spell]
    simp only [Located.lengthAt, Instruction.lengthAt, count]
    omega
  · rw [count]
    exact runs_spell (.lookupSwitch moved cases') wellFormed' reach held

theorem encode_writes {instruction : Instruction} {wide : Bool}
    (wellFormed : instruction.WellFormed)
    (encoded : layout.encode pos here wide instruction = .ok bytes)
    (short : ∀ opcode target, instruction = .branch opcode target → wide = false →
      ∃ distance, layout.displacement pos here target = .ok distance ∧ isShort distance = true) :
    layout.Writes pos here wide instruction bytes := by
  cases instruction with
  | plain bytes' =>
      cases encoded
      exact ⟨rfl, _, .plain bytes, fun code held =>
        runs_spell _ wellFormed (fun _ member => absurd member List.not_mem_nil) held⟩
  | branch opcode target =>
      cases wide with
      | false =>
          obtain ⟨distance, displaced, fits⟩ := short opcode target rfl rfl
          exact writes_branch wellFormed displaced fits encoded
      | true => exact writes_wide inCode bounded wellFormed encoded
  | wideBranch opcode target => exact writes_wideBranch inCode bounded wellFormed encoded
  | tableSwitch default low high targets =>
      exact writes_tableSwitch inCode bounded wellFormed encoded
  | lookupSwitch default cases => exact writes_lookupSwitch inCode bounded wellFormed encoded

end Far

end Encode
end Layout
end ClassSplice.Code
