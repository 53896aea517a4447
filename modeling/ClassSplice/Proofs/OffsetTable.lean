import ClassSplice.OffsetTable
import Mathlib

namespace ClassSplice.OffsetTable

variable {α : Type}

def Increasing (table : OffsetTable α) : Prop :=
  ∀ i j (less : i < j) (inRange : j < table.entries.size),
    have : i < table.entries.size := Nat.lt_trans less inRange
    table.entries[i].1 < table.entries[j].1

/-- The search narrows the place where the offsets begin to exceed the one that is looked up. -/
theorem countUpTo_spec {entries : Array (Nat × α)} {offset low high : Nat}
    (bounded : high ≤ entries.size)
    (sorted : ∀ i j (less : i < j) (inRange : j < entries.size),
      have : i < entries.size := Nat.lt_trans less inRange
      entries[i].1 < entries[j].1)
    (below : ∀ i (inRange : i < entries.size), i < low → entries[i].1 ≤ offset)
    (above : ∀ i (inRange : i < entries.size), high ≤ i → offset < entries[i].1)
    (ordered : low ≤ high) :
    countUpTo entries offset low high bounded ≤ entries.size ∧
      ∀ i (inRange : i < entries.size),
        i < countUpTo entries offset low high bounded ↔ entries[i].1 ≤ offset := by
  fun_induction countUpTo entries offset low high bounded with
  | case1 low high bounded narrowed middle inRange reached ih =>
      refine ih (fun i bound before => ?_) above (by omega)
      rcases Nat.lt_or_ge i middle with less | more
      · exact Nat.le_trans (Nat.le_of_lt (sorted i middle less inRange)) reached
      · have : i = middle := by omega
        subst this
        exact reached
  | case2 low high bounded narrowed middle inRange passed ih =>
      refine ih below (fun i bound behind => ?_) (by omega)
      rcases Nat.eq_or_lt_of_le behind with same | less
      · subst same
        omega
      · have := sorted middle i less bound
        omega
  | case3 low high bounded met =>
      refine ⟨by omega, fun i inRange => ⟨below i inRange, fun reached => ?_⟩⟩
      by_contra behind
      have := above i inRange (by omega)
      omega

theorem lt_rank_iff {table : OffsetTable α} (sorted : table.Increasing) {offset i : Nat}
    (inRange : i < table.entries.size) : i < table.rank offset ↔ table.entries[i].1 ≤ offset :=
  (countUpTo_spec (Nat.le_refl _) sorted (fun _ _ less => absurd less (Nat.not_lt_zero _))
    (fun _ bound more => absurd bound (Nat.not_lt.2 more)) (Nat.zero_le _)).2 i inRange

theorem rank_le {table : OffsetTable α} (sorted : table.Increasing) (offset : Nat) :
    table.rank offset ≤ table.entries.size :=
  (countUpTo_spec (Nat.le_refl _) sorted (fun _ _ less => absurd less (Nat.not_lt_zero _))
    (fun _ bound more => absurd bound (Nat.not_lt.2 more)) (Nat.zero_le _)).1

theorem rank_of_getElem {table : OffsetTable α} (sorted : table.Increasing) {i : Nat}
    (inRange : i < table.entries.size) : table.rank table.entries[i].1 = i + 1 := by
  have least := (lt_rank_iff sorted inRange).2 le_rfl
  have most := rank_le sorted table.entries[i].1
  by_contra different
  have next : i + 1 < table.entries.size := by omega
  have reached : table.entries[i + 1].1 ≤ table.entries[i].1 := (lt_rank_iff sorted next).1 (by omega)
  have := sorted i (i + 1) (Nat.lt_succ_self i) next
  omega

theorem lookup_eq_found {table : OffsetTable α} (sorted : table.Increasing) {offset index : Nat}
    {element : α} :
    table.lookup offset = .found index element ↔ table.entries[index]? = some (offset, element) := by
  constructor
  · intro found
    simp only [lookup] at found
    repeat' split at found
    all_goals cases found
    simp_all
  · intro known
    obtain ⟨inRange, same⟩ := Array.getElem?_eq_some_iff.1 known
    have rank := rank_of_getElem sorted inRange
    rw [same] at rank
    simp only [lookup, rank, Nat.add_sub_cancel, known, if_true]

end ClassSplice.OffsetTable
