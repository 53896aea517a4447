import ClassSplice.Binary.Reader
import ClassSplice.Binary.Writer
import ClassSplice.Proofs.Binary.BigEndian
import ClassSplice.Proofs.Except

namespace ClassSplice.Binary

structure Exact {α : Type} (reader : Reader α) (write : α → List UInt8) (valid : α → Prop) : Prop where
  reads_iff : ∀ {input rest : List UInt8} {value : α},
    reader input = .ok (value, rest) ↔ valid value ∧ input = write value ++ rest

variable {α β : Type}

theorem reader_bind_eq_ok {reader : Reader α} {further : α → Reader β} {input rest : List UInt8}
    {result : β} :
    (reader >>= further) input = .ok (result, rest) ↔
      ∃ value middle, reader input = .ok (value, middle) ∧
        further value middle = .ok (result, rest) := by
  show (reader input >>= fun made => further made.1 made.2) = _ ↔ _
  rw [bind_eq_ok, Prod.exists]

theorem reader_pure_eq_ok {value result : α} {input rest : List UInt8} :
    (pure value : Reader α) input = .ok (result, rest) ↔ value = result ∧ input = rest := by
  show Except.ok (value, input) = _ ↔ _
  rw [Except.ok.injEq, Prod.mk.injEq]

theorem reader_map_eq_ok {reader : Reader α} {f : α → β} {input rest : List UInt8} {result : β} :
    (f <$> reader) input = .ok (result, rest) ↔
      ∃ value, reader input = .ok (value, rest) ∧ f value = result := by
  show (reader >>= fun value => pure (f value)) input = _ ↔ _
  rw [reader_bind_eq_ok]
  constructor
  · rintro ⟨value, _, read, rfl, rfl⟩
    exact ⟨value, read, rfl⟩
  · rintro ⟨value, read, rfl⟩
    exact ⟨value, rest, read, rfl⟩

theorem exact_take (n : Nat) : Exact (Reader.take n) id fun bytes => bytes.length = n := by
  constructor
  intro input rest bytes
  unfold Reader.take
  rw [List.splitAt_eq]
  dsimp only
  split
  · rename_i short
    constructor
    · rintro ⟨⟩
    · rintro ⟨rfl, rfl⟩
      simp only [id, List.take_left'] at short
      exact absurd short (Nat.lt_irrefl _)
  · rename_i enough
    rw [Except.ok.injEq, Prod.mk.injEq]
    constructor
    · rintro ⟨rfl, rfl⟩
      refine ⟨?_, (List.take_append_drop n input).symm⟩
      rw [List.length_take] at enough ⊢
      omega
    · rintro ⟨rfl, rfl⟩
      exact ⟨List.take_left' rfl, List.drop_left' rfl⟩

theorem exact_number (width : Nat) :
    Exact (Reader.number width) (BigEndian.bytes width) fun n => n < 256 ^ width := by
  constructor
  intro input rest n
  unfold Reader.number
  simp only [reader_map_eq_ok, (exact_take width).reads_iff]
  constructor
  · rintro ⟨bytes, ⟨rfl, rfl⟩, rfl⟩
    refine ⟨?_, ?_⟩
    · rw [← BigEndian.bytes_value bytes, BigEndian.value_bytes, BigEndian.length_bytes]
      exact Nat.mod_lt _ (Nat.pow_pos (by decide))
    · rw [BigEndian.bytes_value]
      rfl
  · rintro ⟨fits, rfl⟩
    refine ⟨_, ⟨BigEndian.length_bytes width n, rfl⟩, ?_⟩
    rw [BigEndian.value_bytes, Nat.mod_eq_of_lt fits]

theorem exact_word {width : Nat} {ofNat : Nat → α} {toNat : α → Nat}
    (bounded : ∀ word, toNat word < 256 ^ width) (back : ∀ word, ofNat (toNat word) = word)
    (forth : ∀ n < 256 ^ width, toNat (ofNat n) = n) :
    Exact (ofNat <$> Reader.number width) (fun word => BigEndian.bytes width (toNat word))
      fun _ => True := by
  constructor
  intro input rest word
  simp only [reader_map_eq_ok, (exact_number width).reads_iff, true_and]
  constructor
  · rintro ⟨n, ⟨fits, rfl⟩, rfl⟩
    rw [forth n fits]
  · rintro rfl
    exact ⟨toNat word, ⟨bounded word, rfl⟩, back word⟩

theorem exact_u16 : Exact Reader.u16 Writer.u16 fun _ => True :=
  exact_word UInt16.toNat_lt (fun _ => UInt16.ofNat_toNat) fun _ fits =>
    UInt16.toNat_ofNat_of_lt' fits

theorem exact_u32 : Exact Reader.u32 Writer.u32 fun _ => True :=
  exact_word UInt32.toNat_lt (fun _ => UInt32.ofNat_toNat) fun _ fits =>
    UInt32.toNat_ofNat_of_lt' fits

theorem exact_u64 : Exact Reader.u64 Writer.u64 fun _ => True :=
  exact_word UInt64.toNat_lt (fun _ => UInt64.ofNat_toNat) fun _ fits =>
    UInt64.toNat_ofNat_of_lt' fits

theorem Exact.through {reader : Reader α} {write : α → List UInt8} {toValue : α → β}
    {ofValue : β → α} (exact : Exact reader write fun _ => True)
    (back : ∀ word, ofValue (toValue word) = word) (forth : ∀ value, toValue (ofValue value) = value) :
    Exact (toValue <$> reader) (fun value => write (ofValue value)) fun _ => True := by
  constructor
  intro input rest value
  simp only [reader_map_eq_ok, exact.reads_iff, true_and]
  constructor
  · rintro ⟨word, rfl, rfl⟩
    rw [back]
  · rintro rfl
    exact ⟨_, rfl, forth value⟩

theorem exact_i32 : Exact Reader.i32 Writer.i32 fun _ => True :=
  exact_u32.through (fun _ => rfl) fun _ => rfl

theorem exact_i64 : Exact Reader.i64 Writer.i64 fun _ => True :=
  exact_u64.through (fun _ => rfl) fun _ => rfl

theorem u8_eq_ok {input rest : List UInt8} {byte : UInt8} :
    Reader.u8 input = .ok (byte, rest) ↔ input = byte :: rest := by
  have exact : Exact Reader.u8 (fun byte => BigEndian.bytes 1 byte.toNat) fun _ => True :=
    exact_word UInt8.toNat_lt (fun _ => UInt8.ofNat_toNat) fun _ fits =>
      UInt8.toNat_ofNat_of_lt' fits
  rw [exact.reads_iff, true_and, BigEndian.bytes, UInt8.ofNat_toNat]
  rfl

theorem u16_eq_ok {input rest : List UInt8} {word : UInt16} :
    Reader.u16 input = .ok (word, rest) ↔ input = Writer.u16 word ++ rest :=
  exact_u16.reads_iff.trans (iff_of_eq (true_and _))

theorem u32_eq_ok {input rest : List UInt8} {word : UInt32} :
    Reader.u32 input = .ok (word, rest) ↔ input = Writer.u32 word ++ rest :=
  exact_u32.reads_iff.trans (iff_of_eq (true_and _))

section Lists

variable {reader : Reader α} {write : α → List UInt8} {valid : α → Prop}

theorem timesOnto_eq_ok (exact : Exact reader write valid) {n : Nat} {read result : List α}
    {input rest : List UInt8} :
    Reader.timesOnto reader n read input = .ok (result, rest) ↔
      ∃ items, result = read.reverse ++ items ∧ items.length = n ∧ (∀ item ∈ items, valid item) ∧
        input = items.flatMap write ++ rest := by
  induction n generalizing read input with
  | zero =>
      simp only [Reader.timesOnto, reader_pure_eq_ok, List.length_eq_zero_iff]
      constructor
      · rintro ⟨rfl, rfl⟩
        exact ⟨[], (List.append_nil _).symm, rfl, nofun, rfl⟩
      · rintro ⟨_, rfl, rfl, _, rfl⟩
        exact ⟨(List.append_nil _).symm, rfl⟩
  | succ n ih =>
      simp only [Reader.timesOnto, reader_bind_eq_ok, exact.reads_iff, ih]
      constructor
      · rintro ⟨item, _, ⟨sound, rfl⟩, items, rfl, rfl, each, rfl⟩
        refine ⟨item :: items, ?_, rfl, List.forall_mem_cons.2 ⟨sound, each⟩, ?_⟩
        · rw [List.reverse_cons, List.append_assoc, List.singleton_append]
        · rw [List.flatMap_cons, List.append_assoc]
      · rintro ⟨items, rfl, count, each, rfl⟩
        cases items with
        | nil => cases count
        | cons item items =>
            obtain ⟨sound, each⟩ := List.forall_mem_cons.1 each
            refine ⟨item, _, ⟨sound, ?_⟩, items, ?_, Nat.succ.inj count, each, rfl⟩
            · rw [List.flatMap_cons, List.append_assoc]
            · rw [List.reverse_cons, List.append_assoc, List.singleton_append]

theorem exact_times (exact : Exact reader write valid) (n : Nat) :
    Exact (Reader.times n reader) (List.flatMap write)
      fun items => items.length = n ∧ ∀ item ∈ items, valid item := by
  constructor
  intro input rest items
  unfold Reader.times
  rw [timesOnto_eq_ok exact]
  constructor
  · rintro ⟨_, rfl, count, each, same⟩
    exact ⟨⟨count, each⟩, same⟩
  · rintro ⟨⟨count, each⟩, same⟩
    exact ⟨items, rfl, count, each, same⟩

theorem exact_counted (exact : Exact reader write valid) :
    Exact (Reader.counted reader) (Writer.counted write)
      fun items => items.length ≤ 65535 ∧ ∀ item ∈ items, valid item := by
  constructor
  intro input rest items
  unfold Reader.counted Writer.counted
  simp only [reader_bind_eq_ok, u16_eq_ok, (exact_times exact _).reads_iff]
  constructor
  · rintro ⟨count, _, rfl, ⟨same, each⟩, rfl⟩
    have fits := count.toNat_lt
    rw [same, UInt16.ofNat_toNat, List.append_assoc]
    exact ⟨⟨by omega, each⟩, rfl⟩
  · rintro ⟨⟨fits, each⟩, rfl⟩
    have same : (UInt16.ofNat items.length).toNat = items.length :=
      UInt16.toNat_ofNat_of_lt' (Nat.lt_succ_of_le fits)
    exact ⟨_, _, by rw [List.append_assoc], ⟨same.symm, each⟩, rfl⟩

end Lists

theorem all?_eq_some {reader : Reader α} {write : α → List UInt8} {valid : α → Prop}
    (exact : Exact reader write valid) {input : List UInt8} {value : α} :
    reader.all? input = some value ↔ valid value ∧ input = write value := by
  have whole : reader input = .ok (value, []) ↔ valid value ∧ input = write value ++ [] :=
    exact.reads_iff
  rw [List.append_nil] at whole
  rw [← whole, Reader.all?]
  constructor
  · intro read
    split at read
    · rename_i found
      rw [found, Option.some.inj read]
    · cases read
  · intro read
    rw [read]

end ClassSplice.Binary
