import ClassSplice.Binary.BigEndian
import Mathlib

namespace ClassSplice.Binary.BigEndian

theorem value_append_singleton (front : List UInt8) (byte : UInt8) :
    value (front ++ [byte]) = value front * 256 + byte.toNat := by
  simp [value]

@[simp] theorem length_bytes (width n : Nat) : (bytes width n).length = width := by
  induction width generalizing n with
  | zero => rfl
  | succ width ih => simp [bytes, ih]

theorem value_bytes (width n : Nat) : value (bytes width n) = n % 256 ^ width := by
  induction width generalizing n with
  | zero => simp [bytes, value, Nat.mod_one]
  | succ width ih =>
    have split : n % 256 ^ (width + 1) = n / 256 % 256 ^ width * 256 + n % 256 := by
      rw [Nat.pow_succ, Nat.mul_comm, Nat.mod_mul, Nat.mul_comm, Nat.add_comm]
    rw [bytes, value_append_singleton, ih, split]
    simp

theorem bytes_value (list : List UInt8) : bytes list.length (value list) = list := by
  obtain ⟨n, hn⟩ : ∃ n, list.length = n := ⟨_, rfl⟩
  induction n generalizing list with
  | zero => simp [List.length_eq_zero_iff.1 hn, bytes]
  | succ n ih =>
    have nonempty : list ≠ [] := by intro h; simp [h] at hn
    have whole := List.dropLast_concat_getLast nonempty
    have front := ih list.dropLast (by simp [hn])
    generalize list.getLast nonempty = byte at whole
    rw [← whole, value_append_singleton, List.length_append, List.length_singleton, bytes]
    have high : (value list.dropLast * 256 + byte.toNat) / 256 = value list.dropLast := by
      have := byte.toNat_lt
      omega
    have low : UInt8.ofNat (value list.dropLast * 256 + byte.toNat) = byte := by
      apply UInt8.toNat_inj.1
      have := byte.toNat_lt
      simp only [UInt8.toNat_ofNat']
      omega
    rw [high, low, front]

theorem value_lt (list : List UInt8) : value list < 256 ^ list.length := by
  have same := value_bytes list.length (value list)
  rw [bytes_value] at same
  rw [same]
  exact Nat.mod_lt _ (Nat.pow_pos (by decide))

end ClassSplice.Binary.BigEndian
