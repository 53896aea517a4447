import ClassSplice.Code.Layout
import ClassSplice.Proofs.Binary.BigEndian
import ClassSplice.Proofs.Except

namespace ClassSplice.Code

open Binary (BigEndian.value BigEndian.bytes)

def Holds (code : Array UInt8) (pos : Nat) (bytes : List UInt8) : Prop :=
  ∃ front back, code.toList = front ++ bytes ++ back ∧ front.length = pos

section Holds

variable {code code' : Array UInt8} {pos : Nat} {bytes first second : List UInt8}

theorem Holds.of_toList {front back : List UInt8} (split : code.toList = front ++ bytes ++ back) :
    Holds code front.length bytes :=
  ⟨front, back, split, rfl⟩

theorem Holds.le_size (held : Holds code pos bytes) : pos + bytes.length ≤ code.size := by
  obtain ⟨front, back, split, rfl⟩ := held
  have := congrArg List.length split
  simp only [Array.length_toList, List.length_append] at this
  omega

theorem holds_append :
    Holds code pos (first ++ second) ↔
      Holds code pos first ∧ Holds code (pos + first.length) second := by
  constructor
  · rintro ⟨front, back, split, rfl⟩
    refine ⟨⟨front, second ++ back, by simpa using split, rfl⟩, front ++ first, back, ?_, ?_⟩
    · simpa using split
    · simp
  · rintro ⟨⟨front, back, split, rfl⟩, front', back', split', same⟩
    have cut : front ++ first = front' := by
      have := congrArg (List.take (front.length + first.length)) (split.symm.trans split')
      rw [← List.length_append, List.take_left', ← same.trans List.length_append.symm,
        List.append_assoc, List.take_left'] at this
      · exact this
      · rfl
      · rfl
    subst cut
    exact ⟨front, back', by simpa using split', rfl⟩

theorem holds_cons {byte : UInt8} :
    Holds code pos (byte :: bytes) ↔ Holds code pos [byte] ∧ Holds code (pos + 1) bytes := by
  rw [← List.singleton_append, holds_append, List.length_singleton]

theorem Holds.extract {stop : Nat} (held : Holds code pos bytes) (reach : pos + bytes.length = stop) :
    (code.extract pos stop).toList = bytes := by
  obtain ⟨front, back, split, rfl⟩ := held
  subst reach
  rw [Array.toList_extract, split]
  simp [List.extract_eq_take_drop]

theorem Holds.unique (held : Holds code pos first) (held' : Holds code pos second)
    (same : first.length = second.length) : first = second := by
  rw [← held.extract rfl, ← held'.extract rfl, same]

theorem holds_extract {stop : Nat} (bounded : stop ≤ code.size) (ordered : pos ≤ stop) :
    Holds code pos (code.extract pos stop).toList := by
  refine ⟨code.toList.take pos, code.toList.drop stop, ?_, ?_⟩
  · rw [Array.toList_extract, List.extract_eq_take_drop, List.append_assoc]
    have : code.toList.drop stop = (code.toList.drop pos).drop (stop - pos) := by
      rw [List.drop_drop, Nat.add_sub_cancel' ordered]
    rw [this, List.take_append_drop, List.take_append_drop]
  · simp only [List.length_take, Array.length_toList]
    omega

theorem Holds.getElem? {i : Nat} (held : Holds code pos bytes) (inside : i < bytes.length) :
    code[pos + i]? = bytes[i]? := by
  obtain ⟨front, back, split, rfl⟩ := held
  rw [← Array.getElem?_toList, split, List.append_assoc,
    List.getElem?_append_right (Nat.le_add_right _ _), Nat.add_sub_cancel_left,
    List.getElem?_append_left inside]

theorem Holds.part (held : Holds code pos bytes) (start width : Nat)
    (inside : start + width ≤ bytes.length) :
    Holds code (pos + start) ((bytes.drop start).take width) := by
  obtain ⟨front, back, split, rfl⟩ := held
  refine ⟨front ++ bytes.take start, (bytes.drop start).drop width ++ back, ?_, ?_⟩
  · rw [split]
    have whole : bytes = bytes.take start ++
        ((bytes.drop start).take width ++ (bytes.drop start).drop width) := by
      rw [List.take_append_drop, List.take_append_drop]
    conv_lhs => rw [whole]
    simp only [List.append_assoc]
  · simp only [List.length_append, List.length_take]
    omega

theorem Holds.chunk {α : Type} {chunk : α → List UInt8} {width : Nat}
    (uniform : ∀ x, (chunk x).length = width) {xs : List α} {i : Nat} (inRange : i < xs.length)
    (held : Holds code pos (xs.flatMap chunk)) : Holds code (pos + width * i) (chunk xs[i]) := by
  induction xs generalizing pos i with
  | nil => simp at inRange
  | cons x xs ih =>
      rw [List.flatMap_cons, holds_append, uniform] at held
      cases i with
      | zero => simpa using held.1
      | succ i =>
          have place : pos + width * (i + 1) = pos + width + width * i := by
            rw [Nat.mul_succ]
            omega
          rw [place, List.getElem_cons_succ]
          exact ih (Nat.lt_of_succ_lt_succ inRange) held.2

theorem bytesAt?_of_holds (held : Holds code pos bytes) :
    bytesAt? code pos bytes.length = some bytes := by
  rw [bytesAt?, if_pos held.le_size, held.extract rfl]

theorem wordAt_of_holds (held : Holds code pos bytes) :
    wordAt code pos bytes.length = .ok (BigEndian.value bytes) := by
  rw [wordAt, bytesAt?_of_holds held]

theorem byteAt_of_holds {byte : UInt8} (held : Holds code pos [byte]) :
    byteAt code pos = .ok byte := by
  have : code[pos + 0]? = [byte][0]? := held.getElem? Nat.one_pos
  rw [byteAt, ← Nat.add_zero pos, this]
  rfl

theorem byteAt_eq_ok {byte : UInt8} : byteAt code pos = .ok byte ↔ code[pos]? = some byte := by
  rw [byteAt]
  split <;> simp_all

theorem wordAt_congr {pos' start width n : Nat} (held : Holds code pos bytes)
    (held' : Holds code' pos' bytes) (inside : start + width ≤ bytes.length)
    (read : wordAt code (pos + start) width = .ok n) :
    wordAt code' (pos' + start) width = .ok n := by
  have part := held.part start width inside
  have part' := held'.part start width inside
  have length : ((bytes.drop start).take width).length = width := by
    rw [List.length_take, List.length_drop]
    omega
  have word := wordAt_of_holds part
  have word' := wordAt_of_holds part'
  rw [length] at word word'
  rwa [word', ← word]

theorem i32At_congr {pos' start : Nat} {n : Int32} (held : Holds code pos bytes)
    (held' : Holds code' pos' bytes) (inside : start + 4 ≤ bytes.length)
    (read : i32At code (pos + start) = .ok n) : i32At code' (pos' + start) = .ok n := by
  rw [i32At, map_eq_ok] at read ⊢
  obtain ⟨word, read, rfl⟩ := read
  exact ⟨word, wordAt_congr held held' inside read, rfl⟩

theorem i16At_congr {pos' start : Nat} {n : Int16} (held : Holds code pos bytes)
    (held' : Holds code' pos' bytes) (inside : start + 2 ≤ bytes.length)
    (read : i16At code (pos + start) = .ok n) : i16At code' (pos' + start) = .ok n := by
  simp only [i16At, u16At, map_eq_ok] at read ⊢
  obtain ⟨word, ⟨read, rfl⟩⟩ := read
  obtain ⟨value, read, rfl⟩ := read
  exact ⟨_, ⟨value, wordAt_congr held held' inside read, rfl⟩, rfl⟩

theorem byteAt_congr {pos' start : Nat} {byte : UInt8} (held : Holds code pos bytes)
    (held' : Holds code' pos' bytes) (inside : start < bytes.length)
    (read : byteAt code (pos + start) = .ok byte) : byteAt code' (pos' + start) = .ok byte := by
  rw [byteAt_eq_ok] at read ⊢
  rw [held'.getElem? inside, ← held.getElem? inside, read]

end Holds

@[simp] theorem length_word16 (value : Int) : (Layout.word16 value).length = 2 := by
  simp [Layout.word16]

@[simp] theorem length_word32 (value : Int) : (Layout.word32 value).length = 4 := by
  simp [Layout.word32]

theorem toInt16_ofNat {value : Int} (low : -32768 ≤ value) (high : value ≤ 32767) :
    (UInt16.ofNat (value % 65536).toNat).toInt16.toInt = value := by
  have size : (value % 65536).toNat < 2 ^ 16 := by omega
  rw [UInt16.toInt16, Int16.toInt, Int16.toBitVec, UInt16.toBitVec_ofNat', BitVec.toInt_ofNat',
    Int.bmod_def]
  omega

theorem toInt32_ofNat {value : Int} (low : -2147483648 ≤ value) (high : value ≤ 2147483647) :
    (UInt32.ofNat (value % 4294967296).toNat).toInt32.toInt = value := by
  have size : (value % 4294967296).toNat < 2 ^ 32 := by omega
  rw [UInt32.toInt32, Int32.toInt, Int32.toBitVec, UInt32.toBitVec_ofNat', BitVec.toInt_ofNat',
    Int.bmod_def]
  omega

theorem u16At_u16 {code : Array UInt8} {pos : Nat} {value : UInt16}
    (held : Holds code pos (Binary.Writer.u16 value)) : u16At code pos = .ok value := by
  have word := wordAt_of_holds held
  have length : (Binary.Writer.u16 value).length = 2 := Binary.BigEndian.length_bytes ..
  have fits : value.toNat < 256 ^ 2 := value.toNat_lt
  rw [length, Binary.Writer.u16, Binary.BigEndian.value_bytes, Nat.mod_eq_of_lt fits] at word
  simp only [u16At, word, Except.map, UInt16.ofNat_toNat]

theorem i16At_i16 {code : Array UInt8} {pos : Nat} {value : Int16}
    (held : Holds code pos (Binary.Writer.i16 value)) : i16At code pos = .ok value := by
  rw [i16At, u16At_u16 held]
  rfl

theorem i32At_i32 {code : Array UInt8} {pos : Nat} {value : Int32}
    (held : Holds code pos (Binary.Writer.i32 value)) : i32At code pos = .ok value := by
  have word := wordAt_of_holds held
  have length : (Binary.Writer.i32 value).length = 4 := Binary.BigEndian.length_bytes ..
  have fits : value.toUInt32.toNat < 256 ^ 4 := value.toUInt32.toNat_lt
  rw [length, Binary.Writer.i32, Binary.Writer.u32, Binary.BigEndian.value_bytes,
    Nat.mod_eq_of_lt fits] at word
  simp only [i32At, word, Except.map, UInt32.ofNat_toNat]
  rfl

theorem i16At_word16 {code : Array UInt8} {pos : Nat} {value : Int}
    (held : Holds code pos (Layout.word16 value)) (low : -32768 ≤ value) (high : value ≤ 32767) :
    ∃ n : Int16, i16At code pos = .ok n ∧ n.toInt = value := by
  have word := wordAt_of_holds held
  rw [length_word16, Layout.word16, Binary.BigEndian.value_bytes] at word
  rw [Nat.mod_eq_of_lt (by omega)] at word
  exact ⟨_, by simp only [i16At, u16At, word, Except.map], toInt16_ofNat low high⟩

theorem i32At_word32 {code : Array UInt8} {pos : Nat} {value : Int}
    (held : Holds code pos (Layout.word32 value)) (low : -2147483648 ≤ value)
    (high : value ≤ 2147483647) :
    ∃ n : Int32, i32At code pos = .ok n ∧ n.toInt = value := by
  have word := wordAt_of_holds held
  rw [length_word32, Layout.word32, Binary.BigEndian.value_bytes] at word
  rw [Nat.mod_eq_of_lt (by omega)] at word
  exact ⟨_, by simp only [i32At, word, Except.map], toInt32_ofNat low high⟩

theorem exists_holds_of_wordAt {code : Array UInt8} {pos width word : Nat}
    (read : wordAt code pos width = .ok word) :
    ∃ bytes, Holds code pos bytes ∧ bytes.length = width ∧ Binary.BigEndian.value bytes = word ∧
      word < 256 ^ width := by
  unfold wordAt bytesAt? at read
  split at read
  · rename_i bytes found
    split at found
    · rename_i inside
      cases found
      cases read
      have held := holds_extract inside (Nat.le_add_right pos width)
      have length : (code.extract pos (pos + width)).toList.length = width := by
        simp only [Array.length_toList, Array.size_extract]
        omega
      refine ⟨_, held, length, rfl, ?_⟩
      have fits := Binary.BigEndian.value_lt (code.extract pos (pos + width)).toList
      rwa [length] at fits
    · cases found
  · cases read

theorem holds_of_byteAt {code : Array UInt8} {pos : Nat} {byte : UInt8}
    (read : byteAt code pos = .ok byte) : Holds code pos [byte] := by
  obtain ⟨inside, same⟩ := Array.getElem?_eq_some_iff.1 (byteAt_eq_ok.1 read)
  have held := holds_extract (Nat.succ_le_of_lt inside) (Nat.le_succ pos)
  have alone : (code.extract pos (pos + 1)).toList = [byte] := by
    apply List.ext_getElem
    · simp
      omega
    · intro i _ inside'
      obtain rfl : i = 0 := by simpa using inside'
      simp [same]
  rwa [alone] at held

theorem holds_of_i16At {code : Array UInt8} {pos : Nat} {value : Int16}
    (read : i16At code pos = .ok value) : Holds code pos (Layout.word16 value.toInt) := by
  simp only [i16At, u16At, map_eq_ok] at read
  obtain ⟨_, ⟨word, read, rfl⟩, rfl⟩ := read
  obtain ⟨bytes, held, length, rfl, fits⟩ := exists_holds_of_wordAt read
  have same : ((UInt16.ofNat (Binary.BigEndian.value bytes)).toInt16.toInt % 65536).toNat =
      Binary.BigEndian.value bytes := by
    rw [UInt16.toInt16, Int16.toInt, Int16.toBitVec, UInt16.toBitVec_ofNat', BitVec.toInt_ofNat',
      Int.bmod_def]
    omega
  rw [Layout.word16, same, ← length, Binary.BigEndian.bytes_value]
  exact held

theorem holds_of_i32At {code : Array UInt8} {pos : Nat} {value : Int32}
    (read : i32At code pos = .ok value) : Holds code pos (Layout.word32 value.toInt) := by
  simp only [i32At, map_eq_ok] at read
  obtain ⟨word, read, rfl⟩ := read
  obtain ⟨bytes, held, length, rfl, fits⟩ := exists_holds_of_wordAt read
  have same : ((UInt32.ofNat (Binary.BigEndian.value bytes)).toInt32.toInt % 4294967296).toNat =
      Binary.BigEndian.value bytes := by
    rw [UInt32.toInt32, Int32.toInt, Int32.toBitVec, UInt32.toBitVec_ofNat', BitVec.toInt_ofNat',
      Int.bmod_def]
    omega
  rw [Layout.word32, same, ← length, Binary.BigEndian.bytes_value]
  exact held

end ClassSplice.Code
