import ClassSplice.Proofs.Text.Utf16
import ClassSplice.Text.ModifiedUtf8

/-!
Texts in modified UTF-8. Every text is read back from its encoding (`decode_encode`), but a code unit may
also stand in a longer group of bytes than its own: the encoding of a text is its shortest spelling, and
the only one of that length (`eq_encode_of_length`). `decode_grammar` says which bytes are read, and which
are written back.
-/

namespace ClassSplice.Text.ModifiedUtf8

inductive Group (unit : Nat) : List UInt8 → Prop
  | one (positive : 1 ≤ unit) (small : unit ≤ 0x7F) : Group unit [UInt8.ofNat unit]
  | two (small : unit ≤ 0x7FF) :
      Group unit [UInt8.ofNat (0xC0 + unit / 64), UInt8.ofNat (0x80 + unit % 64)]
  | three (small : unit < 0x10000) :
      Group unit [UInt8.ofNat (0xE0 + unit / 4096), UInt8.ofNat (0x80 + unit / 64 % 64),
        UInt8.ofNat (0x80 + unit % 64)]

inductive Spells : List Nat → List UInt8 → Prop
  | nil : Spells [] []
  | cons {unit : Nat} {units : List Nat} {group bytes : List UInt8} (first : Group unit group)
      (others : Spells units bytes) : Spells (unit :: units) (group ++ bytes)

/-- Every code unit stands in its own bytes and not in a longer group. -/
def Shortest (bytes : List UInt8) : Prop :=
  ∃ units : List Nat, (∀ unit ∈ units, unit < 0x10000) ∧ bytes = units.flatMap bytesOf

section Groups

variable {unit : Nat} {units : List Nat} {group bytes rest : List UInt8}

theorem Group.lt (written : Group unit group) : unit < 0x10000 := by
  cases written with
  | one _ small | two small | three small => omega

theorem Spells.lt (spells : Spells units bytes) : ∀ unit ∈ units, unit < 0x10000 := by
  induction spells with
  | nil => exact nofun
  | cons first _ ih => exact List.forall_mem_cons.2 ⟨first.lt, ih⟩

theorem group_bytesOf (small : unit < 0x10000) : Group unit (bytesOf unit) := by
  unfold bytesOf
  split
  · rename_i one
    exact .one one.1 one.2
  · split
    · rename_i two
      exact .two two
    · exact .three small

theorem spells_flatMap (small : ∀ unit ∈ units, unit < 0x10000) :
    Spells units (units.flatMap bytesOf) := by
  induction units with
  | nil => exact .nil
  | cons unit units ih =>
      obtain ⟨first, others⟩ := List.forall_mem_cons.1 small
      exact .cons (group_bytesOf first) (ih others)

theorem Group.shortest (written : Group unit group) :
    (bytesOf unit).length < group.length ∨ bytesOf unit = group := by
  have bound := written.lt
  cases written with
  | one positive small =>
      rw [bytesOf, if_pos ⟨positive, small⟩]
      exact .inr rfl
  | two small =>
      rw [bytesOf, if_pos small]
      split
      · exact .inl (Nat.lt_succ_self 1)
      · exact .inr rfl
  | three small =>
      unfold bytesOf
      split
      · exact .inl (Nat.lt_add_of_pos_right Nat.two_pos)
      · split
        · exact .inl (Nat.lt_succ_self 2)
        · exact .inr rfl

theorem Spells.shortest (spells : Spells units bytes) :
    (units.flatMap bytesOf).length < bytes.length ∨ units.flatMap bytesOf = bytes := by
  induction spells with
  | nil => exact .inr rfl
  | cons first _ ih =>
      rw [List.flatMap_cons, List.length_append, List.length_append]
      rcases first.shortest with longer | same
      · refine .inl ?_
        rcases ih with longer' | same'
        · omega
        · rw [same']
          omega
      · rw [same]
        rcases ih with longer' | same'
        · exact .inl (by omega)
        · exact .inr (by rw [same'])

end Groups

section Units

variable {unit n : Nat} {units decoded : List Nat} {lead byte : UInt8} {bytes rest : List UInt8}

theorem continuation?_eq_some : continuation? byte = some n ↔ n < 64 ∧ byte = UInt8.ofNat (0x80 + n) := by
  have bound := byte.toNat_lt
  unfold continuation?
  rw [← UInt8.toNat_inj]
  split
  · rw [Option.some.injEq]
    constructor
    · rintro rfl
      refine ⟨by omega, ?_⟩
      rw [UInt8.toNat_ofNat_of_lt' (by simp only [UInt8.size]; omega)]
      omega
    · rintro ⟨small, same⟩
      rw [UInt8.toNat_ofNat_of_lt' (by simp only [UInt8.size]; omega)] at same
      omega
  · rename_i outside
    refine ⟨nofun, ?_⟩
    rintro ⟨small, same⟩
    rw [UInt8.toNat_ofNat_of_lt' (by simp only [UInt8.size]; omega)] at same
    omega

theorem unit?_group {group : List UInt8} (written : Group unit group) :
    ∃ lead tail, group = lead :: tail ∧ ∀ rest, unit? lead (tail ++ rest) = some (unit, rest) := by
  have ofNat {m : Nat} (small : m < 256) : (UInt8.ofNat m).toNat = m := UInt8.toNat_ofNat_of_lt' small
  have continued {m : Nat} (small : m < 64) : continuation? (UInt8.ofNat (0x80 + m)) = some m :=
    continuation?_eq_some.2 ⟨small, rfl⟩
  cases written with
  | one positive small =>
      refine ⟨_, _, rfl, fun rest => ?_⟩
      rw [unit?.eq_def, ofNat (by omega), if_pos ⟨positive, small⟩, List.nil_append]
  | two small =>
      refine ⟨_, _, rfl, fun rest => ?_⟩
      have whole : (0xC0 + unit / 64 - 0xC0) * 64 + unit % 64 = unit := by omega
      rw [unit?.eq_def, ofNat (by omega), if_neg (by omega), if_pos (by omega), List.singleton_append]
      simp only [continued (show unit % 64 < 64 by omega), Option.bind_eq_bind, Option.bind_some, whole]
  | three small =>
      refine ⟨_, _, rfl, fun rest => ?_⟩
      have whole : (0xE0 + unit / 4096 - 0xE0) * 4096 + unit / 64 % 64 * 64 + unit % 64 = unit := by
        omega
      rw [unit?.eq_def, ofNat (by omega), if_neg (by omega), if_neg (by omega), if_pos (by omega),
        List.cons_append, List.singleton_append]
      simp only [continued (show unit % 64 < 64 by omega),
        continued (show unit / 64 % 64 < 64 by omega), Option.bind_eq_bind, Option.bind_some, whole]

theorem group_of_unit? {rest' : List UInt8} (read : unit? lead rest = some (unit, rest')) :
    ∃ group, Group unit group ∧ lead :: rest = group ++ rest' := by
  have ofLead {m : Nat} (same : lead.toNat = m) : lead = UInt8.ofNat m := by
    rw [← same, UInt8.ofNat_toNat]
  unfold unit? at read
  split at read
  · rename_i one
    cases read
    exact ⟨_, .one one.1 one.2, by rw [UInt8.ofNat_toNat]; rfl⟩
  split at read
  · rename_i _ two
    split at read
    · rename_i low rest
      simp only [Option.bind_eq_bind, Option.bind_eq_some_iff, Option.some.injEq, Prod.mk.injEq] at read
      obtain ⟨l, continued, same, rfl⟩ := read
      obtain ⟨small, rfl⟩ := continuation?_eq_some.1 continued
      refine ⟨_, .two (by omega), ?_⟩
      rw [ofLead (show lead.toNat = 0xC0 + unit / 64 by omega), show unit % 64 = l by omega]
      rfl
    · cases read
  split at read
  · rename_i _ _ three
    split at read
    · rename_i middle low rest
      simp only [Option.bind_eq_bind, Option.bind_eq_some_iff, Option.some.injEq, Prod.mk.injEq] at read
      obtain ⟨m, continued, l, continued', same, rfl⟩ := read
      obtain ⟨small, rfl⟩ := continuation?_eq_some.1 continued
      obtain ⟨small', rfl⟩ := continuation?_eq_some.1 continued'
      refine ⟨_, .three (by omega), ?_⟩
      rw [ofLead (show lead.toNat = 0xE0 + unit / 4096 by omega),
        show unit / 64 % 64 = m by omega, show unit % 64 = l by omega]
      rfl
    · cases read
  · cases read

theorem unitsOnto_of_spells (spells : Spells units bytes) :
    unitsOnto decoded bytes = some (decoded.reverse ++ units) := by
  induction spells generalizing decoded with
  | nil => rw [unitsOnto, List.append_nil]
  | cons first _ ih =>
      obtain ⟨lead, tail, rfl, read⟩ := unit?_group first
      rw [List.cons_append, unitsOnto]
      split
      · rename_i none
        rw [read] at none
        cases none
      · rename_i unit' rest' some
        rw [read] at some
        cases some
        rw [ih, List.reverse_cons, List.append_assoc, List.singleton_append]

theorem spells_of_unitsOnto (done : unitsOnto decoded bytes = some units) :
    ∃ units', units = decoded.reverse ++ units' ∧ Spells units' bytes := by
  fun_induction unitsOnto decoded bytes with
  | case1 decoded =>
      cases done
      exact ⟨[], (List.append_nil _).symm, .nil⟩
  | case2 => cases done
  | case3 decoded lead rest unit rest' read _ ih =>
      obtain ⟨units', rfl, spells⟩ := ih done
      obtain ⟨group, written, same⟩ := group_of_unit? read
      refine ⟨unit :: units', ?_, same ▸ .cons written spells⟩
      rw [List.reverse_cons, List.append_assoc, List.singleton_append]

theorem unitsOnto_eq_some : unitsOnto [] bytes = some units ↔ Spells units bytes := by
  constructor
  · intro done
    obtain ⟨units', rfl, spells⟩ := spells_of_unitsOnto done
    exact spells
  · exact unitsOnto_of_spells

theorem Spells.unique {units' : List Nat} (spells : Spells units bytes)
    (spells' : Spells units' bytes) : units = units' :=
  Option.some.inj ((unitsOnto_eq_some.2 spells).symm.trans (unitsOnto_eq_some.2 spells'))

end Units

section Texts

variable {text : String} {bytes : List UInt8}

theorem decode_eq_some : decode bytes = some text ↔ Spells (Utf16.encode text.toList) bytes := by
  simp only [decode, Option.bind_eq_bind, Option.bind_eq_some_iff, unitsOnto_eq_some,
    Option.some.injEq]
  constructor
  · rintro ⟨units, spells, chars, decoded, rfl⟩
    rw [String.toList_ofList, (Utf16.decode_eq_some spells.lt).1 decoded]
    exact spells
  · intro spells
    exact ⟨_, spells, _, (Utf16.decode_eq_some spells.lt).2 rfl, String.ofList_toList⟩

theorem decode_encode (text : String) : decode (encode text) = some text :=
  decode_eq_some.2 (spells_flatMap fun _ => Utf16.encode_lt)

theorem length_encode_le (decoded : decode bytes = some text) :
    (encode text).length ≤ bytes.length := by
  rcases (decode_eq_some.1 decoded).shortest with longer | same
  · exact Nat.le_of_lt longer
  · exact Nat.le_of_eq (congrArg _ same)

theorem eq_encode_of_length (decoded : decode bytes = some text)
    (same : (encode text).length = bytes.length) : encode text = bytes := by
  rcases (decode_eq_some.1 decoded).shortest with longer | equal
  · exact absurd same (Nat.ne_of_lt longer)
  · exact equal

theorem encode_eq_iff_shortest (decoded : decode bytes = some text) :
    encode text = bytes ↔ Shortest bytes := by
  have spells := decode_eq_some.1 decoded
  constructor
  · rintro rfl
    exact ⟨_, spells.lt, rfl⟩
  · rintro ⟨units, small, rfl⟩
    exact congrArg _ (spells.unique (spells_flatMap small))

end Texts

def IsContinuation (byte : UInt8) : Prop :=
  0x80 ≤ byte ∧ byte ≤ 0xBF

instance (byte : UInt8) : Decidable (IsContinuation byte) :=
  inferInstanceAs (Decidable (_ ∧ _))

inductive Formed : List UInt8 → Prop
  | one {byte : UInt8} (range : 0x01 ≤ byte ∧ byte ≤ 0x7F) : Formed [byte]
  | two {lead low : UInt8} (range : 0xC0 ≤ lead ∧ lead ≤ 0xDF) (continues : IsContinuation low) :
      Formed [lead, low]
  | three {lead middle low : UInt8} (range : 0xE0 ≤ lead ∧ lead ≤ 0xEF)
      (continues : IsContinuation middle) (continues' : IsContinuation low) :
      Formed [lead, middle, low]

/-- The code unit in the bits of a group that do not tell what kind of byte they are in. -/
def unitOf : List UInt8 → Nat
  | [byte] => byte.toNat
  | [lead, low] => lead.toNat % 32 * 64 + low.toNat % 64
  | [lead, middle, low] => lead.toNat % 16 * 4096 + middle.toNat % 64 * 64 + low.toNat % 64
  | _ => 0

def neededFor (unit : Nat) : Nat :=
  if unit = 0 then 2 else if unit ≤ 0x7F then 1 else if unit ≤ 0x7FF then 2 else 3

structure Splits (bytes : List UInt8) (groups : List (List UInt8)) : Prop where
  formed : ∀ group ∈ groups, Formed group
  whole : groups.flatten = bytes

section Grammar

variable {unit : Nat} {units : List Nat} {group bytes : List UInt8} {groups : List (List UInt8)}

theorem Group.formed (written : Group unit group) : Formed group := by
  have ofNat {m : Nat} (small : m < 256) : (UInt8.ofNat m).toNat = m := UInt8.toNat_ofNat_of_lt' small
  have continues {m : Nat} (small : m < 64) : IsContinuation (UInt8.ofNat (0x80 + m)) := by
    simp only [IsContinuation, UInt8.le_iff_toNat_le, ofNat (show 0x80 + m < 256 by omega)]
    exact ⟨Nat.le_add_right .., Nat.add_le_add_left (Nat.le_of_lt_succ small) _⟩
  cases written with
  | one positive small =>
      refine .one ?_
      simp only [UInt8.le_iff_toNat_le, ofNat (show unit < 256 by omega)]
      exact ⟨positive, small⟩
  | two small =>
      refine .two ?_ (continues (Nat.mod_lt _ (by decide)))
      simp only [UInt8.le_iff_toNat_le, ofNat (show 0xC0 + unit / 64 < 256 by omega)]
      exact ⟨Nat.le_add_right .., show _ ≤ 0xDF by omega⟩
  | three small =>
      refine .three ?_ (continues (Nat.mod_lt _ (by decide))) (continues (Nat.mod_lt _ (by decide)))
      simp only [UInt8.le_iff_toNat_le, ofNat (show 0xE0 + unit / 4096 < 256 by omega)]
      exact ⟨Nat.le_add_right .., show _ ≤ 0xEF by omega⟩

theorem Group.unitOf_eq (written : Group unit group) : unitOf group = unit := by
  have ofNat {m : Nat} (small : m < 256) : (UInt8.ofNat m).toNat = m := UInt8.toNat_ofNat_of_lt' small
  cases written with
  | one positive small => exact ofNat (by omega)
  | two small =>
      simp only [unitOf, ofNat (show 0xC0 + unit / 64 < 256 by omega),
        ofNat (show 0x80 + unit % 64 < 256 by omega)]
      omega
  | three small =>
      simp only [unitOf, ofNat (show 0xE0 + unit / 4096 < 256 by omega),
        ofNat (show 0x80 + unit / 64 % 64 < 256 by omega),
        ofNat (show 0x80 + unit % 64 < 256 by omega)]
      omega

theorem Formed.toGroup (formed : Formed group) : Group (unitOf group) group := by
  have same {byte : UInt8} {m : Nat} (value : byte.toNat = m) : byte = UInt8.ofNat m := by
    rw [← value, UInt8.ofNat_toNat]
  cases formed with
  | @one byte range =>
      rw [UInt8.le_iff_toNat_le, UInt8.le_iff_toNat_le] at range
      have written : Group byte.toNat _ := .one range.1 range.2
      rwa [UInt8.ofNat_toNat] at written
  | @two lead low range continues =>
      simp only [IsContinuation, UInt8.le_iff_toNat_le, UInt8.reduceToNat] at range continues
      have first := same (show lead.toNat = 0xC0 + unitOf [lead, low] / 64 by rw [unitOf]; omega)
      have second := same (show low.toNat = 0x80 + unitOf [lead, low] % 64 by rw [unitOf]; omega)
      have written : Group (unitOf [lead, low]) _ := .two (by rw [unitOf]; omega)
      rwa [← first, ← second] at written
  | @three lead middle low range continues continues' =>
      simp only [IsContinuation, UInt8.le_iff_toNat_le, UInt8.reduceToNat] at range continues continues'
      have first := same (show lead.toNat = 0xE0 + unitOf [lead, middle, low] / 4096 by
        rw [unitOf]; omega)
      have second := same (show middle.toNat = 0x80 + unitOf [lead, middle, low] / 64 % 64 by
        rw [unitOf]; omega)
      have third := same (show low.toNat = 0x80 + unitOf [lead, middle, low] % 64 by
        rw [unitOf]; omega)
      have written : Group (unitOf [lead, middle, low]) _ := .three (by rw [unitOf]; omega)
      rwa [← first, ← second, ← third] at written

theorem spells_iff_splits :
    Spells units bytes ↔ ∃ groups, Splits bytes groups ∧ groups.map unitOf = units := by
  constructor
  · intro spells
    induction spells with
    | nil => exact ⟨[], ⟨nofun, rfl⟩, rfl⟩
    | cons first _ ih =>
        obtain ⟨groups, ⟨formed, rfl⟩, rfl⟩ := ih
        refine ⟨_ :: groups, ⟨List.forall_mem_cons.2 ⟨first.formed, formed⟩, rfl⟩, ?_⟩
        rw [List.map_cons, first.unitOf_eq]
  · rintro ⟨groups, ⟨formed, rfl⟩, rfl⟩
    induction groups with
    | nil => exact .nil
    | cons group groups ih =>
        obtain ⟨first, others⟩ := List.forall_mem_cons.1 formed
        exact .cons first.toGroup (ih others)

theorem exists_decode_iff :
    (∃ text, decode bytes = some text) ↔
      ∃ groups, Splits bytes groups ∧ Utf16.Paired (groups.map unitOf) := by
  simp only [decode_eq_some]
  constructor
  · rintro ⟨text, spells⟩
    obtain ⟨groups, splits, same⟩ := spells_iff_splits.1 spells
    exact ⟨groups, splits, (Utf16.exists_encode_iff (same ▸ spells.lt)).1 ⟨_, same.symm⟩⟩
  · rintro ⟨groups, splits, paired⟩
    have spells := spells_iff_splits.2 ⟨groups, splits, rfl⟩
    obtain ⟨text, same⟩ := (Utf16.exists_encode_iff spells.lt).2 paired
    exact ⟨String.ofList text, by rwa [String.toList_ofList, same]⟩

theorem length_bytesOf (unit : Nat) : (bytesOf unit).length = neededFor unit := by
  unfold bytesOf neededFor
  split
  · rw [if_neg (by omega), if_pos (by omega)]
    rfl
  · split
    · split
      · rfl
      · rw [if_neg (by omega)]
        rfl
    · rw [if_neg (by omega), if_neg (by omega)]
      rfl

theorem Formed.bytesOf_eq_iff (formed : Formed group) :
    bytesOf (unitOf group) = group ↔ group.length ≤ neededFor (unitOf group) := by
  rw [← length_bytesOf]
  constructor
  · intro same
    exact Nat.le_of_eq (congrArg _ same.symm)
  · intro short
    rcases formed.toGroup.shortest with longer | same
    · omega
    · exact same

theorem Splits.flatMap_eq_iff (splits : Splits bytes groups) :
    (groups.map unitOf).flatMap bytesOf = bytes ↔
      ∀ group ∈ groups, group.length ≤ neededFor (unitOf group) := by
  obtain ⟨formed, rfl⟩ := splits
  induction groups with
  | nil => exact ⟨nofun, fun _ => rfl⟩
  | cons group groups ih =>
      obtain ⟨first, others⟩ := List.forall_mem_cons.1 formed
      rw [List.map_cons, List.flatMap_cons, List.flatten_cons, List.forall_mem_cons,
        ← ih others, ← first.bytesOf_eq_iff]
      constructor
      · intro same
        have rest := (spells_iff_splits.2 ⟨groups, ⟨others, rfl⟩, rfl⟩).shortest
        rcases first.toGroup.shortest with longer | head
        · -- A longer group at the front is not made up for by what is behind it.
          have sizes := congrArg List.length same
          rw [List.length_append, List.length_append] at sizes
          rcases rest with longer' | rest
          · omega
          · rw [rest] at sizes
            omega
        · rw [head] at same
          exact ⟨head, List.append_cancel_left same⟩
      · rintro ⟨head, rest⟩
        rw [head, rest]

theorem Formed.range {byte : UInt8} (formed : Formed group) (member : byte ∈ group) :
    0 < byte ∧ byte < 0xF0 := by
  cases formed with
  | one range =>
      obtain rfl := List.mem_singleton.1 member
      simp only [UInt8.le_iff_toNat_le, UInt8.lt_iff_toNat_lt, UInt8.reduceToNat] at range ⊢
      omega
  | two range continues =>
      simp only [IsContinuation, UInt8.le_iff_toNat_le, UInt8.lt_iff_toNat_lt,
        UInt8.reduceToNat] at range continues ⊢
      simp only [List.mem_cons, List.not_mem_nil, or_false] at member
      rcases member with rfl | rfl <;> omega
  | three range continues continues' =>
      simp only [IsContinuation, UInt8.le_iff_toNat_le, UInt8.lt_iff_toNat_lt,
        UInt8.reduceToNat] at range continues continues' ⊢
      simp only [List.mem_cons, List.not_mem_nil, or_false] at member
      rcases member with rfl | rfl | rfl <;> omega

theorem range_of_mem_encode {text : String} {byte : UInt8} (member : byte ∈ encode text) :
    0 < byte ∧ byte < 0xF0 := by
  obtain ⟨unit, known, inside⟩ := List.mem_flatMap.1 member
  exact (group_bytesOf (Utf16.encode_lt known)).formed.range inside

/-- Every text is read back from its encoding, which has neither a zero byte nor one that opens a group
of four. Bytes are read just if they split into groups whose surrogates come in pairs. What is read is
encoded in no more bytes, and in the same ones just if no group is longer than it needs to be. -/
theorem decode_grammar :
    (∀ text, decode (encode text) = some text ∧ ∀ byte ∈ encode text, 0 < byte ∧ byte < 0xF0) ∧
    ∀ bytes : List UInt8,
      ((∃ text, decode bytes = some text) ↔
        ∃ groups, Splits bytes groups ∧ Utf16.Paired (groups.map unitOf)) ∧
      ∀ text groups, decode bytes = some text → Splits bytes groups →
        (encode text).length ≤ bytes.length ∧
        (encode text = bytes ↔ ∀ group ∈ groups, group.length ≤ neededFor (unitOf group)) := by
  refine ⟨fun text => ⟨decode_encode text, fun _ => range_of_mem_encode⟩, fun bytes => ?_⟩
  refine ⟨exists_decode_iff, fun text groups decoded splits => ⟨length_encode_le decoded, ?_⟩⟩
  have units := (decode_eq_some.1 decoded).unique (spells_iff_splits.2 ⟨groups, splits, rfl⟩)
  rw [← splits.flatMap_eq_iff, ← units]
  rfl

theorem decode_grammar_overlong :
    decode [0xC1, 0x83, 0xED, 0xA0, 0x80, 0xED, 0xB0, 0x80] = some "C𐀀" ∧
      Splits [0xC1, 0x83, 0xED, 0xA0, 0x80, 0xED, 0xB0, 0x80]
        [[0xC1, 0x83], [0xED, 0xA0, 0x80], [0xED, 0xB0, 0x80]] ∧
      encode "C𐀀" ≠ [0xC1, 0x83, 0xED, 0xA0, 0x80, 0xED, 0xB0, 0x80] := by
  have decoded : decode [0xC1, 0x83, 0xED, 0xA0, 0x80, 0xED, 0xB0, 0x80] = some "C𐀀" := by cbv
  have splits : Splits [0xC1, 0x83, 0xED, 0xA0, 0x80, 0xED, 0xB0, 0x80]
      [[0xC1, 0x83], [0xED, 0xA0, 0x80], [0xED, 0xB0, 0x80]] := by
    refine ⟨?_, rfl⟩
    simp only [List.forall_mem_cons, List.not_mem_nil, false_implies, implies_true, and_true]
    exact ⟨.two (by decide) (by decide), .three (by decide) (by decide) (by decide),
      .three (by decide) (by decide) (by decide)⟩
  refine ⟨decoded, splits, fun same => ?_⟩
  have short := ((decode_grammar.2 _).2 _ _ decoded splits).2.1 same
  exact absurd (short [0xC1, 0x83] (List.mem_cons_self ..)) (by decide)

end Grammar
end ClassSplice.Text.ModifiedUtf8
