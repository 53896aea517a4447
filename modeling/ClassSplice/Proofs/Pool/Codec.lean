import ClassSplice.Proofs.Binary.Exact
import ClassSplice.Proofs.Pool.Growth
import ClassSplice.Proofs.Text.ModifiedUtf8

namespace ClassSplice.Pool

open Binary

inductive Spelling where
  | text (encoded : List UInt8)
  | other (constant : Constant)

namespace Spelling

inductive Denotes : Spelling → Constant → List UInt8 → Prop
  | text {encoded : List UInt8} {value : String} (short : encoded.length ≤ 65535)
      (decoded : Text.ModifiedUtf8.decode encoded = some value) :
      Denotes (text encoded) (.text value) (Writer.u16 (UInt16.ofNat encoded.length) ++ encoded)
  | other {constant : Constant} {bytes : List UInt8} (number : ∀ value, constant ≠ .text value)
      (written : constant.writeContent = .ok bytes) : Denotes (other constant) constant bytes

end Spelling

namespace Constant

variable {constant : Constant} {input rest : List UInt8}

theorem readText_eq_ok : readText input = .ok (constant, rest) ↔
    ∃ encoded value, constant = .text value ∧ encoded.length ≤ 65535 ∧
      Text.ModifiedUtf8.decode encoded = some value ∧
      input = Writer.u16 (UInt16.ofNat encoded.length) ++ encoded ++ rest := by
  simp only [readText, reader_bind_eq_ok, u16_eq_ok, (exact_take _).reads_iff, id]
  constructor
  · rintro ⟨length, _, rfl, encoded, middle, ⟨same, rfl⟩, read⟩
    have bound := length.toNat_lt
    cases decoded : Text.ModifiedUtf8.decode encoded with
    | none =>
        rw [decoded] at read
        cases read
    | some value =>
        rw [decoded] at read
        obtain ⟨rfl, rfl⟩ := reader_pure_eq_ok.1 read
        refine ⟨encoded, value, rfl, by omega, decoded, ?_⟩
        rw [same, UInt16.ofNat_toNat, List.append_assoc]
  · rintro ⟨encoded, value, rfl, short, decoded, rfl⟩
    have same : (UInt16.ofNat encoded.length).toNat = encoded.length :=
      UInt16.toNat_ofNat_of_lt' (Nat.lt_succ_of_le short)
    refine ⟨_, _, List.append_assoc .., encoded, rest, ⟨same.symm, rfl⟩, ?_⟩
    rw [decoded]
    rfl

theorem number_eq_ok {α : Type} {reader : Reader α} {write : α → List UInt8} (kind : α → Constant)
    (exact : Exact reader write fun _ => True) :
    (kind <$> reader) input = .ok (constant, rest) ↔
      ∃ value, kind value = constant ∧ input = write value ++ rest := by
  simp only [reader_map_eq_ok, exact.reads_iff, true_and]
  exact exists_congr fun _ => and_comm

theorem pair_eq_ok (kind : UInt16 → UInt16 → Constant) :
    (do return kind (← Reader.u16) (← Reader.u16) : Reader Constant) input = .ok (constant, rest) ↔
      ∃ first second, kind first second = constant ∧
        input = Writer.u16 first ++ Writer.u16 second ++ rest := by
  simp only [reader_bind_eq_ok, reader_pure_eq_ok, u16_eq_ok]
  constructor
  · rintro ⟨first, _, rfl, second, _, rfl, same, rfl⟩
    exact ⟨first, second, same, (List.append_assoc ..).symm⟩
  · rintro ⟨first, second, same, rfl⟩
    exact ⟨first, _, List.append_assoc .., second, _, rfl, same, rfl⟩

theorem handle_eq_ok :
    (do return methodHandle (← Reader.u8) (← Reader.u16) : Reader Constant) input =
        .ok (constant, rest) ↔
      ∃ kind reference, methodHandle kind reference = constant ∧
        input = Writer.u8 kind ++ Writer.u16 reference ++ rest := by
  simp only [reader_bind_eq_ok, reader_pure_eq_ok, u16_eq_ok, u8_eq_ok]
  constructor
  · rintro ⟨kind, _, rfl, reference, _, rfl, same, rfl⟩
    exact ⟨kind, reference, same, rfl⟩
  · rintro ⟨kind, reference, same, rfl⟩
    exact ⟨kind, _, rfl, reference, _, rfl, same, rfl⟩

theorem denotes_of_readTagged {tag : UInt8} (read : readTagged tag input = .ok (constant, rest)) :
    constant.tag = tag ∧ ∃ spelling bytes, Spelling.Denotes spelling constant bytes ∧
      input = bytes ++ rest := by
  have tagged {known : UInt8} (same : tag.toNat = known.toNat) : tag = known :=
    UInt8.toNat_inj.1 same
  fun_cases readTagged tag with
  | case1 same =>
      obtain rfl := @tagged 1 same
      obtain ⟨encoded, value, rfl, short, decoded, rfl⟩ := readText_eq_ok.1 read
      exact ⟨rfl, _, _, .text short decoded, rfl⟩
  | case2 same =>
      obtain rfl := @tagged 3 same
      obtain ⟨value, rfl, rfl⟩ := (number_eq_ok integer exact_i32).1 read
      exact ⟨rfl, _, _, .other nofun rfl, rfl⟩
  | case3 same =>
      obtain rfl := @tagged 4 same
      obtain ⟨value, rfl, rfl⟩ := (number_eq_ok float exact_u32).1 read
      exact ⟨rfl, _, _, .other nofun rfl, rfl⟩
  | case4 same =>
      obtain rfl := @tagged 5 same
      obtain ⟨value, rfl, rfl⟩ := (number_eq_ok long exact_i64).1 read
      exact ⟨rfl, _, _, .other nofun rfl, rfl⟩
  | case5 same =>
      obtain rfl := @tagged 6 same
      obtain ⟨value, rfl, rfl⟩ := (number_eq_ok double exact_u64).1 read
      exact ⟨rfl, _, _, .other nofun rfl, rfl⟩
  | case6 _ same =>
      obtain rfl := @tagged 7 same
      obtain ⟨value, rfl, rfl⟩ := (number_eq_ok classRef exact_u16).1 read
      exact ⟨rfl, _, _, .other nofun rfl, rfl⟩
  | case7 _ same =>
      obtain rfl := @tagged 8 same
      obtain ⟨value, rfl, rfl⟩ := (number_eq_ok string exact_u16).1 read
      exact ⟨rfl, _, _, .other nofun rfl, rfl⟩
  | case8 _ same =>
      obtain rfl := @tagged 9 same
      obtain ⟨first, second, rfl, rfl⟩ := (pair_eq_ok fieldRef).1 read
      exact ⟨rfl, _, _, .other nofun rfl, rfl⟩
  | case9 _ same =>
      obtain rfl := @tagged 10 same
      obtain ⟨first, second, rfl, rfl⟩ := (pair_eq_ok (methodRef · · false)).1 read
      exact ⟨rfl, _, _, .other nofun rfl, rfl⟩
  | case10 _ same =>
      obtain rfl := @tagged 11 same
      obtain ⟨first, second, rfl, rfl⟩ := (pair_eq_ok (methodRef · · true)).1 read
      exact ⟨rfl, _, _, .other nofun rfl, rfl⟩
  | case11 _ same =>
      obtain rfl := @tagged 12 same
      obtain ⟨first, second, rfl, rfl⟩ := (pair_eq_ok nameAndType).1 read
      exact ⟨rfl, _, _, .other nofun rfl, rfl⟩
  | case12 _ same =>
      obtain rfl := @tagged 15 same
      obtain ⟨kind, reference, rfl, rfl⟩ := handle_eq_ok.1 read
      exact ⟨rfl, _, _, .other nofun rfl, rfl⟩
  | case13 _ same =>
      obtain rfl := @tagged 16 same
      obtain ⟨value, rfl, rfl⟩ := (number_eq_ok methodType exact_u16).1 read
      exact ⟨rfl, _, _, .other nofun rfl, rfl⟩
  | case14 _ same =>
      obtain rfl := @tagged 17 same
      obtain ⟨first, second, rfl, rfl⟩ := (pair_eq_ok dynamic).1 read
      exact ⟨rfl, _, _, .other nofun rfl, rfl⟩
  | case15 _ same =>
      obtain rfl := @tagged 18 same
      obtain ⟨first, second, rfl, rfl⟩ := (pair_eq_ok invokeDynamic).1 read
      exact ⟨rfl, _, _, .other nofun rfl, rfl⟩
  | case16 _ same =>
      obtain rfl := @tagged 19 same
      obtain ⟨value, rfl, rfl⟩ := (number_eq_ok moduleName exact_u16).1 read
      exact ⟨rfl, _, _, .other nofun rfl, rfl⟩
  | case17 _ same =>
      obtain rfl := @tagged 20 same
      obtain ⟨value, rfl, rfl⟩ := (number_eq_ok packageName exact_u16).1 read
      exact ⟨rfl, _, _, .other nofun rfl, rfl⟩
  | case18 =>
      have unknown : readTagged tag = throw (.unknownTag tag) := by
        unfold readTagged
        split
        case h_18 => rfl
        all_goals contradiction
      rw [unknown] at read
      cases read

theorem readTagged_of_denotes {spelling : Spelling} {bytes : List UInt8}
    (denotes : spelling.Denotes constant bytes) :
    readTagged constant.tag (bytes ++ rest) = .ok (constant, rest) := by
  cases denotes with
  | text short decoded => exact readText_eq_ok.2 ⟨_, _, rfl, short, decoded, rfl⟩
  | other number written =>
      cases constant with
      | text value => exact absurd rfl (number value)
      | integer value =>
          cases written
          exact (number_eq_ok integer exact_i32).2 ⟨value, rfl, rfl⟩
      | float bits =>
          cases written
          exact (number_eq_ok float exact_u32).2 ⟨bits, rfl, rfl⟩
      | long value =>
          cases written
          exact (number_eq_ok long exact_i64).2 ⟨value, rfl, rfl⟩
      | double bits =>
          cases written
          exact (number_eq_ok double exact_u64).2 ⟨bits, rfl, rfl⟩
      | classRef index | string index | methodType index | moduleName index | packageName index =>
          cases written
          exact (number_eq_ok _ exact_u16).2 ⟨index, rfl, rfl⟩
      | fieldRef first second | nameAndType first second | dynamic first second
      | invokeDynamic first second =>
          cases written
          exact (pair_eq_ok _).2 ⟨first, second, rfl, rfl⟩
      | methodRef owner member isInterface =>
          cases written
          cases isInterface with
          | false => exact (pair_eq_ok (methodRef · · false)).2 ⟨owner, member, rfl, rfl⟩
          | true => exact (pair_eq_ok (methodRef · · true)).2 ⟨owner, member, rfl, rfl⟩
      | methodHandle kind reference =>
          cases written
          exact handle_eq_ok.2 ⟨kind, reference, rfl, rfl⟩

theorem read_eq_ok : read input = .ok (constant, rest) ↔
    ∃ spelling bytes, Spelling.Denotes spelling constant bytes ∧
      input = constant.tag :: bytes ++ rest := by
  simp only [read, reader_bind_eq_ok, u8_eq_ok]
  constructor
  · rintro ⟨tag, _, rfl, tagged⟩
    obtain ⟨rfl, spelling, bytes, denotes, rfl⟩ := denotes_of_readTagged tagged
    exact ⟨spelling, bytes, denotes, rfl⟩
  · rintro ⟨spelling, bytes, denotes, rfl⟩
    exact ⟨_, _, rfl, readTagged_of_denotes denotes⟩

def spelling : Constant → Spelling
  | text value => .text (Text.ModifiedUtf8.encode value)
  | constant => .other constant

/-- The text of a constant is short enough to be stored. -/
def Storable (constant : Constant) : Prop :=
  ∀ value, constant = .text value → (Text.ModifiedUtf8.encode value).length ≤ 65535

theorem write_eq_ok {bytes : List UInt8} : constant.write = .ok bytes ↔
    ∃ content, constant.spelling.Denotes constant content ∧ bytes = constant.tag :: content := by
  simp only [write, bind_eq_ok, pure_eq_ok]
  refine exists_congr fun content => and_congr ?_ eq_comm
  cases constant with
  | text value =>
      simp only [writeContent]
      constructor
      · intro written
        split at written
        · cases written
        · rename_i short
          cases written
          exact .text (Nat.le_of_not_lt short) (Text.ModifiedUtf8.decode_encode value)
      · intro denotes
        cases denotes with
        | text short _ => exact if_neg (Nat.not_lt.2 short)
  | _ =>
      constructor
      · exact .other nofun
      · intro denotes
        cases denotes with
        | other _ written => exact written

theorem exists_denotes : (∃ content, constant.spelling.Denotes constant content) ↔ constant.Storable := by
  constructor
  · rintro ⟨content, denotes⟩ value rfl
    cases denotes with
    | text short _ => exact short
  · intro storable
    cases constant with
    | text value => exact ⟨_, .text (storable value rfl) (Text.ModifiedUtf8.decode_encode value)⟩
    | methodRef owner member isInterface => exact ⟨_, .other nofun rfl⟩
    | _ => exact ⟨_, .other nofun rfl⟩

end Constant

namespace Spelling

def Shortest : Spelling → Prop
  | text encoded => Text.ModifiedUtf8.Shortest encoded
  | other _ => True

theorem Denotes.shortest {spelling : Spelling} {constant : Constant} {bytes : List UInt8}
    (denotes : spelling.Denotes constant bytes) :
    ∃ written, constant.spelling.Denotes constant written ∧
      (written.length < bytes.length ∧ ¬ spelling.Shortest ∨ written = bytes ∧ spelling.Shortest) := by
  cases denotes with
  | @text encoded value short decoded =>
      have le := Text.ModifiedUtf8.length_encode_le decoded
      have same := Text.ModifiedUtf8.encode_eq_iff_shortest decoded
      refine ⟨_, .text (Nat.le_trans le short) (Text.ModifiedUtf8.decode_encode value), ?_⟩
      by_cases equal : Text.ModifiedUtf8.encode value = encoded
      · exact .inr ⟨by rw [equal], same.1 equal⟩
      · refine .inl ⟨?_, fun shortest => equal (same.2 shortest)⟩
        have differs := mt (Text.ModifiedUtf8.eq_encode_of_length decoded) equal
        simp only [List.length_append, Writer.u16, BigEndian.length_bytes]
        omega
  | other number written =>
      refine ⟨bytes, ?_, .inr ⟨rfl, trivial⟩⟩
      cases constant with
      | text value => exact absurd rfl (number value)
      | _ => exact .other number written

end Spelling

inductive Spelled : List Spelling → List Constant → List UInt8 → Prop
  | nil : Spelled [] [] []
  | cons {spelling : Spelling} {constant : Constant} {spellings : List Spelling}
      {constants : List Constant} {content bytes : List UInt8}
      (first : spelling.Denotes constant content) (others : Spelled spellings constants bytes) :
      Spelled (spelling :: spellings) (constant :: constants) (constant.tag :: content ++ bytes)

section Rows

variable {spellings : List Spelling} {constants : List Constant} {bytes : List UInt8}

theorem Spelled.shortest (spelled : Spelled spellings constants bytes) :
    ∃ written, Spelled (constants.map Constant.spelling) constants written ∧
      (written.length < bytes.length ∧ ¬ (∀ spelling ∈ spellings, spelling.Shortest) ∨
        written = bytes ∧ ∀ spelling ∈ spellings, spelling.Shortest) := by
  induction spelled with
  | nil => exact ⟨[], .nil, .inr ⟨rfl, nofun⟩⟩
  | cons first _ ih =>
      obtain ⟨content, denotes, one⟩ := first.shortest
      obtain ⟨written, spelled, others⟩ := ih
      refine ⟨_, .cons denotes spelled, ?_⟩
      simp only [List.forall_mem_cons, List.length_append, List.length_cons]
      rcases one with ⟨less, long⟩ | ⟨rfl, short⟩
      · refine .inl ⟨?_, fun each => long each.1⟩
        rcases others with ⟨less', _⟩ | ⟨rfl, _⟩
        · omega
        · omega
      · rcases others with ⟨less, long⟩ | ⟨rfl, each⟩
        · exact .inl ⟨by omega, fun each => long each.2⟩
        · exact .inr ⟨rfl, short, each⟩

theorem exists_spelled : (∃ written, Spelled (constants.map Constant.spelling) constants written) ↔
    ∀ constant ∈ constants, constant.Storable := by
  induction constants with
  | nil => exact ⟨fun _ => nofun, fun _ => ⟨[], .nil⟩⟩
  | cons constant constants ih =>
      rw [List.forall_mem_cons, ← ih, ← Constant.exists_denotes]
      constructor
      · rintro ⟨_, spelled⟩
        cases spelled with
        | cons first others => exact ⟨⟨_, first⟩, _, others⟩
      · rintro ⟨⟨_, first⟩, _, others⟩
        exact ⟨_, .cons first others⟩

theorem forall₂_write {parts : List (List UInt8)} :
    List.Forall₂ (fun constant part => constant.write = .ok part) constants parts →
      Spelled (constants.map Constant.spelling) constants parts.flatten := by
  intro each
  induction each with
  | nil => exact .nil
  | cons one _ ih =>
      obtain ⟨content, denotes, rfl⟩ := Constant.write_eq_ok.1 one
      exact .cons denotes ih

theorem mapM_write_eq_ok :
    (∃ parts, constants.mapM Constant.write = .ok parts ∧ parts.flatten = bytes) ↔
      Spelled (constants.map Constant.spelling) constants bytes := by
  simp only [mapM_eq_ok]
  constructor
  · rintro ⟨parts, each, rfl⟩
    exact forall₂_write each
  · intro spelled
    induction constants generalizing bytes with
    | nil =>
        cases spelled
        exact ⟨[], .nil, rfl⟩
    | cons constant constants ih =>
        cases spelled with
        | cons first others =>
            obtain ⟨parts, each, rfl⟩ := ih others
            exact ⟨_, .cons (Constant.write_eq_ok.2 ⟨_, first, rfl⟩) each, rfl⟩

end Rows

/-- A pool that holds what was added to the empty one, within the index space. -/
structure Filled (pool : Pool) : Prop where
  added : pool.constants.toList.foldl push .empty = pool
  room : pool.next ≤ capacity

section Pools

variable {pool before after : Pool} {constants : List Constant} {constant : Constant}
  {input rest bytes : List UInt8} {count : Nat}

theorem toList_empty : (empty : Pool).constants.toList = [] := by
  simp only [empty, OffsetTable.startingAt, OffsetTable.toList, Array.map_empty]

theorem toList_push (pool : Pool) (constant : Constant) :
    (pool.push constant).constants.toList = pool.constants.toList ++ [constant] := by
  simp only [OffsetTable.toList, entries_push, Array.map_push, Array.toList_push]

theorem toList_foldl_push (pool : Pool) (constants : List Constant) :
    (constants.foldl push pool).constants.toList = pool.constants.toList ++ constants := by
  induction constants generalizing pool with
  | nil => exact (List.append_nil _).symm
  | cons constant constants ih =>
      rw [List.foldl_cons, ih, toList_push, List.append_assoc, List.singleton_append]

theorem toList_filled (constants : List Constant) :
    (constants.foldl push .empty).constants.toList = constants := by
  rw [toList_foldl_push, toList_empty, List.nil_append]

theorem next_le_foldl_push (pool : Pool) (constants : List Constant) :
    pool.next ≤ (constants.foldl push pool).next := by
  induction constants generalizing pool with
  | nil => exact Nat.le_refl _
  | cons constant constants ih =>
      refine Nat.le_trans ?_ (ih (pool.push constant))
      rw [next_push]
      exact Nat.le_add_right _ _

theorem sound_foldl_push (sound : pool.Sound) (room : (constants.foldl push pool).next ≤ capacity) :
    (constants.foldl push pool).Sound := by
  induction constants generalizing pool with
  | nil => exact sound
  | cons constant constants ih =>
      refine ih (sound.push (decide_eq_true ?_)) room
      exact Nat.le_trans (next_le_foldl_push (pool.push constant) constants) room

theorem Filled.sound (filled : pool.Filled) : pool.Sound := by
  have room := filled.room
  rw [← filled.added] at room ⊢
  exact sound_foldl_push sound_empty room

theorem filled_foldl_push (room : (constants.foldl push .empty).next ≤ capacity) :
    (constants.foldl push .empty).Filled := by
  exact ⟨by rw [toList_filled], room⟩

theorem filled_empty : Filled .empty :=
  ⟨by rw [toList_empty]; rfl, by decide⟩

theorem Filled.push (filled : pool.Filled) (room : pool.hasRoomFor constant = true) :
    (pool.push constant).Filled := by
  refine ⟨?_, of_decide_eq_true room⟩
  rw [toList_push, List.foldl_append, filled.added]
  rfl

theorem Extended.filled (extended : Extended before after) (filled : before.Filled) : after.Filled := by
  induction extended with
  | refl => exact filled
  | push _ room _ ih => exact ih.push room

theorem spelled_of_readOnto (done : readOnto count pool input = .ok (after, rest)) :
    ∃ spellings constants bytes, Spelled spellings constants bytes ∧
      constants.foldl push pool = after ∧ after.next = count ∧ input = bytes ++ rest := by
  fun_induction readOnto count pool input with
  | case1 | case3 | case5 => cases done
  | case2 pool input more constant input' read _ room ih =>
      obtain ⟨spellings, constants, bytes, spelled, rfl, full, rfl⟩ := ih done
      obtain ⟨spelling, content, denotes, rfl⟩ := Constant.read_eq_ok.1 read
      exact ⟨_, _, _, .cons denotes spelled, rfl, full, (List.append_assoc ..).symm⟩
  | case4 pool input _ full =>
      cases done
      exact ⟨[], [], [], .nil, rfl, full, rfl⟩

theorem readOnto_of_spelled {spellings : List Spelling} (spelled : Spelled spellings constants bytes)
    (room : (constants.foldl push pool).next ≤ capacity) :
    readOnto (constants.foldl push pool).next pool (bytes ++ rest) =
      .ok (constants.foldl push pool, rest) := by
  induction spelled generalizing pool with
  | nil => exact readOnto_done rfl
  | @cons _ constant _ constants content bytes first _ ih =>
      rw [List.foldl_cons] at room ⊢
      have fits := next_le_foldl_push (pool.push constant) constants
      have wide := constant.width_pos
      have read : Constant.read (constant.tag :: content ++ bytes ++ rest) =
          .ok (constant, bytes ++ rest) :=
        Constant.read_eq_ok.2 ⟨_, _, first, List.append_assoc ..⟩
      rw [readOnto_push _ read (decide_eq_true (Nat.le_trans fits room))]
      · exact ih room
      · rw [next_push] at fits
        omega

theorem read_eq_ok : read input = .ok (pool, rest) ↔
    pool.Filled ∧ ∃ spellings bytes, Spelled spellings pool.constants.toList bytes ∧
      input = Writer.u16 (UInt16.ofNat pool.next) ++ bytes ++ rest := by
  simp only [read, reader_bind_eq_ok, u16_eq_ok]
  constructor
  · rintro ⟨count, _, rfl, done⟩
    have bound := count.toNat_lt
    obtain ⟨spellings, constants, bytes, spelled, rfl, full, rfl⟩ := spelled_of_readOnto done
    refine ⟨filled_foldl_push (by rw [full, capacity]; omega), spellings, bytes, ?_, ?_⟩
    · rwa [toList_filled]
    · rw [full, UInt16.ofNat_toNat, List.append_assoc]
  · rintro ⟨filled, spellings, bytes, spelled, rfl⟩
    have same : (UInt16.ofNat pool.next).toNat = pool.next :=
      UInt16.toNat_ofNat_of_lt' (Nat.lt_succ_of_le filled.room)
    refine ⟨_, _, List.append_assoc .., ?_⟩
    have room := filled.room
    rw [← filled.added] at room
    have done : readOnto (pool.constants.toList.foldl push .empty).next .empty (bytes ++ rest) = _ :=
      readOnto_of_spelled spelled room
    rw [same]
    rwa [filled.added] at done

theorem write_eq_ok : pool.write = .ok bytes ↔
    ∃ content, Spelled (pool.constants.toList.map Constant.spelling) pool.constants.toList content ∧
      bytes = Writer.u16 (UInt16.ofNat pool.next) ++ content := by
  simp only [write, bind_eq_ok, pure_eq_ok, ← mapM_write_eq_ok]
  constructor
  · rintro ⟨parts, written, rfl⟩
    exact ⟨_, ⟨parts, written, rfl⟩, rfl⟩
  · rintro ⟨_, ⟨parts, written, rfl⟩, rfl⟩
    exact ⟨parts, written, rfl⟩

end Pools
end ClassSplice.Pool
