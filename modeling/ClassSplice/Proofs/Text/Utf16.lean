import ClassSplice.Text.Utf16
import Mathlib

namespace ClassSplice.Text.Utf16

theorem toNat_range (c : Char) : c.toNat < 0xD800 ∨ 0xDFFF < c.toNat ∧ c.toNat < 0x110000 :=
  c.valid

theorem toNat_ofNat {n : Nat} (valid : n < 0xD800 ∨ 0xDFFF < n ∧ n < 0x110000) :
    (Char.ofNat n).toNat = n := by
  rw [Char.ofNat, dif_pos valid]
  rfl

theorem isHighSurrogate_iff {unit : Nat} :
    isHighSurrogate unit = true ↔ 0xD800 ≤ unit ∧ unit < 0xDC00 := by
  simp [isHighSurrogate]

theorem isLowSurrogate_iff {unit : Nat} :
    isLowSurrogate unit = true ↔ 0xDC00 ≤ unit ∧ unit < 0xE000 := by
  simp [isLowSurrogate]

theorem unitsOf_lt {c : Char} {unit : Nat} (member : unit ∈ unitsOf c) : unit < 0x10000 := by
  have range := toNat_range c
  unfold unitsOf at member
  split at member
  · rw [List.mem_singleton.1 member]
    assumption
  · simp only [List.mem_cons, List.not_mem_nil, or_false] at member
    omega

theorem encode_lt {text : List Char} {unit : Nat} (member : unit ∈ encode text) :
    unit < 0x10000 := by
  obtain ⟨c, _, inside⟩ := List.mem_flatMap.1 member
  exact unitsOf_lt inside

theorem decodeOnto_unitsOf (decoded : List Char) (c : Char) (rest : List Nat) :
    decodeOnto decoded (unitsOf c ++ rest) = decodeOnto (c :: decoded) rest := by
  have range := toNat_range c
  unfold unitsOf
  split
  · rename_i small
    have high : ¬ isHighSurrogate c.toNat = true := by
      rw [isHighSurrogate_iff]
      omega
    have low : ¬ isLowSurrogate c.toNat = true := by
      rw [isLowSurrogate_iff]
      omega
    rw [List.singleton_append, decodeOnto.eq_def]
    dsimp only
    rw [if_neg high, if_neg low, Char.ofNat_toNat]
  · rename_i large
    have high : isHighSurrogate (0xD800 + (c.toNat - 0x10000) / 0x400) = true := by
      rw [isHighSurrogate_iff]
      omega
    have low : isLowSurrogate (0xDC00 + (c.toNat - 0x10000) % 0x400) = true := by
      rw [isLowSurrogate_iff]
      omega
    have whole : 0x10000 + (0xD800 + (c.toNat - 0x10000) / 0x400 - 0xD800) * 0x400 +
        (0xDC00 + (c.toNat - 0x10000) % 0x400 - 0xDC00) = c.toNat := by omega
    rw [List.cons_append, List.singleton_append, decodeOnto, if_pos high, if_pos low, whole, Char.ofNat_toNat]

theorem decodeOnto_encode (decoded text : List Char) :
    decodeOnto decoded (encode text) = some (decoded.reverse ++ text) := by
  induction text generalizing decoded with
  | nil => rw [List.append_nil]; rfl
  | cons c text ih =>
      rw [encode, List.flatMap_cons, decodeOnto_unitsOf]
      show decodeOnto (c :: decoded) (encode text) = _
      rw [ih, List.reverse_cons, List.append_assoc, List.singleton_append]

theorem unitsOf_ofNat {unit : Nat} (small : unit < 0x10000)
    (high : ¬ isHighSurrogate unit = true) (low : ¬ isLowSurrogate unit = true) :
    unitsOf (Char.ofNat unit) = [unit] := by
  rw [isHighSurrogate_iff] at high
  rw [isLowSurrogate_iff] at low
  have same : (Char.ofNat unit).toNat = unit := toNat_ofNat (by omega)
  rw [unitsOf, same, if_pos small]

theorem unitsOf_pair {high low : Nat} (isHigh : isHighSurrogate high = true)
    (isLow : isLowSurrogate low = true) :
    unitsOf (Char.ofNat (0x10000 + (high - 0xD800) * 0x400 + (low - 0xDC00))) = [high, low] := by
  rw [isHighSurrogate_iff] at isHigh
  rw [isLowSurrogate_iff] at isLow
  have same := toNat_ofNat (n := 0x10000 + (high - 0xD800) * 0x400 + (low - 0xDC00)) (by omega)
  have first : 0xD800 + (0x10000 + (high - 0xD800) * 0x400 + (low - 0xDC00) - 0x10000) / 0x400 =
      high := by omega
  have second : 0xDC00 + (0x10000 + (high - 0xD800) * 0x400 + (low - 0xDC00) - 0x10000) % 0x400 =
      low := by omega
  rw [unitsOf, same, if_neg (by omega), first, second]

theorem encode_of_decodeOnto {decoded text : List Char} {units : List Nat}
    (small : ∀ unit ∈ units, unit < 0x10000) (done : decodeOnto decoded units = some text) :
    ∃ text', text = decoded.reverse ++ text' ∧ encode text' = units := by
  fun_induction decodeOnto decoded units with
  | case1 decoded =>
      cases done
      exact ⟨[], (List.append_nil _).symm, rfl⟩
  | case2 decoded unit high low rest isLow ih =>
      have others := fun other member => small other (List.mem_cons_of_mem _ (List.mem_cons_of_mem _ member))
      obtain ⟨text', rfl, same⟩ := ih others done
      refine ⟨_ :: text', by rw [List.reverse_cons, List.append_assoc]; rfl, ?_⟩
      rw [encode, List.flatMap_cons, unitsOf_pair high isLow]
      exact congrArg _ same
  | case3 | case4 | case5 => cases done
  | case6 decoded unit rest high low ih =>
      obtain ⟨first, others⟩ := List.forall_mem_cons.1 small
      obtain ⟨text', rfl, same⟩ := ih others done
      refine ⟨_ :: text', by rw [List.reverse_cons, List.append_assoc]; rfl, ?_⟩
      rw [encode, List.flatMap_cons, unitsOf_ofNat first high low]
      exact congrArg _ same

theorem decode_eq_some {units : List Nat} {text : List Char}
    (small : ∀ unit ∈ units, unit < 0x10000) : decode units = some text ↔ encode text = units := by
  constructor
  · intro done
    obtain ⟨text', rfl, same⟩ := encode_of_decodeOnto small done
    exact same
  · rintro rfl
    exact decodeOnto_encode [] text

inductive Paired : List Nat → Prop
  | nil : Paired []
  | single {unit : Nat} {units : List Nat} (high : ¬ isHighSurrogate unit = true)
      (low : ¬ isLowSurrogate unit = true) (others : Paired units) : Paired (unit :: units)
  | pair {high low : Nat} {units : List Nat} (isHigh : isHighSurrogate high = true)
      (isLow : isLowSurrogate low = true) (others : Paired units) : Paired (high :: low :: units)

theorem Paired.unitsOf_append {units : List Nat} (c : Char) (others : Paired units) :
    Paired (unitsOf c ++ units) := by
  have range := toNat_range c
  unfold unitsOf
  split
  · refine .single ?_ ?_ others
    · rw [isHighSurrogate_iff]
      omega
    · rw [isLowSurrogate_iff]
      omega
  · refine .pair ?_ ?_ others
    · rw [isHighSurrogate_iff]
      omega
    · rw [isLowSurrogate_iff]
      omega

theorem paired_encode (text : List Char) : Paired (encode text) := by
  induction text with
  | nil => exact .nil
  | cons c text ih => exact ih.unitsOf_append c

theorem Paired.exists_encode {units : List Nat} (paired : Paired units)
    (small : ∀ unit ∈ units, unit < 0x10000) : ∃ text, encode text = units := by
  induction paired with
  | nil => exact ⟨[], rfl⟩
  | @single unit units high low _ ih =>
      obtain ⟨first, others⟩ := List.forall_mem_cons.1 small
      obtain ⟨text, rfl⟩ := ih others
      refine ⟨Char.ofNat unit :: text, ?_⟩
      rw [encode, List.flatMap_cons, unitsOf_ofNat first high low]
      rfl
  | @pair high low units isHigh isLow _ ih =>
      obtain ⟨text, rfl⟩ := ih (List.forall_mem_cons.1 (List.forall_mem_cons.1 small).2).2
      refine ⟨Char.ofNat (0x10000 + (high - 0xD800) * 0x400 + (low - 0xDC00)) :: text, ?_⟩
      rw [encode, List.flatMap_cons, unitsOf_pair isHigh isLow]
      rfl

theorem exists_encode_iff {units : List Nat} (small : ∀ unit ∈ units, unit < 0x10000) :
    (∃ text, encode text = units) ↔ Paired units := by
  constructor
  · rintro ⟨text, rfl⟩
    exact paired_encode text
  · exact fun paired => paired.exists_encode small

end ClassSplice.Text.Utf16
