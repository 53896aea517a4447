import ClassSplice.Code.Layout
import ClassSplice.Proofs.OffsetTable

namespace ClassSplice.OffsetTable

open Code (Located)
open Pool (Constant)

variable {α : Type}

def laidOut [Width α] (start : Nat) : List α → List (Nat × α)
  | [] => []
  | element :: elements => (start, element) :: laidOut (start + Width.width element) elements

def pushAll [Width α] (table : OffsetTable α) : List α → List Nat × OffsetTable α
  | [] => ([], table)
  | element :: elements =>
    let (offsets, last) := pushAll (table.push element) elements
    (table.next :: offsets, last)

def room [Width α] (elements : List α) (count : Nat) : Nat :=
  ((elements.take count).map Width.width).sum

section Pushes

variable [Width α] (table : OffsetTable α) (start : Nat) (elements : List α)

theorem toList_pushAll :
    (table.pushAll elements).2.entries.toList = table.entries.toList ++ laidOut table.next elements := by
  induction elements generalizing table with
  | nil => exact (List.append_nil _).symm
  | cons element elements ih =>
      rw [pushAll, ih, laidOut]
      simp [push]

theorem fst_pushAll : (table.pushAll elements).1 = (laidOut table.next elements).map Prod.fst := by
  induction elements generalizing table with
  | nil => rfl
  | cons element elements ih => exact congrArg (List.cons table.next) (ih (table.push element))

theorem next_pushAll :
    (table.pushAll elements).2.next = table.next + (elements.map Width.width).sum := by
  induction elements generalizing table with
  | nil => rfl
  | cons element elements ih =>
      rw [pushAll, ih, List.map_cons, List.sum_cons, ← Nat.add_assoc]
      rfl

theorem pushAll?_eq (word : table.next < wordLimit) : table.pushAll? elements =
    if table.next + (elements.map Width.width).sum < wordLimit then some (table.pushAll elements)
    else none := by
  induction elements generalizing table with
  | nil => exact (if_pos word).symm
  | cons element elements ih =>
      rw [pushAll?, push?, List.map_cons, List.sum_cons, ← Nat.add_assoc]
      by_cases fits : table.next + Width.width element < wordLimit
      · simp only [if_pos fits, Option.bind_eq_bind, Option.bind_some]
        rw [ih (table.push element) fits]
        show (if table.next + Width.width element + _ < wordLimit then _ else _ : Option _).bind _ = _
        split
        · rfl
        · rfl
      · rw [if_neg fits, if_neg (by omega)]
        rfl

@[simp] theorem length_laidOut : (laidOut start elements).length = elements.length := by
  induction elements generalizing start with
  | nil => rfl
  | cons element elements ih => rw [laidOut, List.length_cons, ih, List.length_cons]

theorem getElem?_laidOut (index : Nat) : (laidOut start elements)[index]? =
    elements[index]?.map fun element => (start + room elements index, element) := by
  induction elements generalizing start index with
  | nil => rfl
  | cons element elements ih =>
      cases index with
      | zero => rfl
      | succ index =>
          rw [laidOut, List.getElem?_cons_succ, ih, List.getElem?_cons_succ]
          simp only [room, List.take_succ_cons, List.map_cons, List.sum_cons, Nat.add_assoc]

theorem map_fst_laidOut : (laidOut start elements).map Prod.fst =
    (List.range elements.length).map fun index => start + room elements index := by
  apply List.ext_getElem?
  intro index
  rw [List.getElem?_map, getElem?_laidOut, List.getElem?_map]
  rcases Nat.lt_or_ge index elements.length with inside | outside
  · rw [List.getElem?_eq_getElem inside, List.getElem?_range inside]
    rfl
  · rw [List.getElem?_eq_none outside, List.getElem?_eq_none (by rwa [List.length_range])]
    rfl

variable {start elements}

theorem le_of_mem_laidOut {entry : Nat × α} (member : entry ∈ laidOut start elements) :
    start ≤ entry.1 := by
  obtain ⟨index, known⟩ := List.mem_iff_getElem?.1 member
  rw [getElem?_laidOut, Option.map_eq_some_iff] at known
  obtain ⟨element, _, rfl⟩ := known
  exact Nat.le_add_right _ _

theorem pairwise_laidOut (wide : ∀ element ∈ elements, 1 ≤ Width.width element) :
    (laidOut start elements).Pairwise fun one other => one.1 < other.1 := by
  induction elements generalizing start with
  | nil => exact .nil
  | cons element elements ih =>
      refine .cons (fun entry member => ?_) (ih fun other member => wide other (.tail _ member))
      have room := wide element List.mem_cons_self
      have behind := le_of_mem_laidOut member
      dsimp only
      omega

end Pushes

theorem increasing_iff_pairwise {table : OffsetTable α} : table.Increasing ↔
    table.entries.toList.Pairwise fun one other => one.1 < other.1 := by
  rw [List.pairwise_iff_getElem]
  exact ⟨fun sorted i j _ inRange less => sorted i j less inRange,
    fun pairwise i j less inRange => pairwise i j (Nat.lt_trans less inRange) inRange less⟩

section Lookup

variable {table : OffsetTable α} (sorted : table.Increasing) {offset index : Nat}

include sorted

theorem rank_eq_countP :
    table.rank offset = table.entries.toList.countP fun entry => entry.1 ≤ offset := by
  have inside := rank_le sorted offset
  have front : ((table.entries.toList.take (table.rank offset)).countP fun entry =>
      entry.1 ≤ offset) = (table.entries.toList.take (table.rank offset)).length := by
    refine List.countP_eq_length.2 fun entry member => decide_eq_true ?_
    obtain ⟨i, inRange, rfl⟩ := List.mem_take_iff_getElem.1 member
    exact (lt_rank_iff sorted (by simp at inRange; omega)).1 (by omega)
  have back : ((table.entries.toList.drop (table.rank offset)).countP fun entry =>
      entry.1 ≤ offset) = 0 := by
    refine List.countP_eq_zero.2 fun entry member => ?_
    obtain ⟨i, inRange, rfl⟩ := List.mem_drop_iff_getElem.1 member
    rw [Array.length_toList, Nat.add_comm] at inRange
    simp only [decide_eq_true_eq]
    intro less
    have := (lt_rank_iff sorted inRange).2 less
    omega
  conv_rhs => rw [← List.take_append_drop (table.rank offset) table.entries.toList]
  rw [List.countP_append, front, back, List.length_take, Array.length_toList]
  omega

theorem lookup_of_start {entry : Nat × α} (member : entry ∈ table.entries.toList) :
    ∃ index, table.lookup entry.1 = .found index entry.2 := by
  obtain ⟨index, known⟩ := List.mem_iff_getElem?.1 member
  rw [Array.getElem?_toList] at known
  exact ⟨index, (lookup_eq_found sorted).2 known⟩

theorem lookup_of_no_start (missing : ∀ entry ∈ table.entries.toList, entry.1 ≠ offset) :
    table.lookup offset =
      if table.rank offset < table.size then .inside (table.rank offset) else .beyond := by
  have bounded := rank_le sorted offset
  rw [lookup]
  split
  · rename_i outside
    rw [Array.getElem?_eq_none_iff] at outside
    rw [if_neg (by unfold size; omega)]
  · rename_i start element known
    have member := Array.mem_toList_iff.2 (Array.mem_of_getElem? known)
    rw [if_neg (missing _ member)]

theorem lookup_eq_inside : table.lookup offset = .inside index ↔
    (∀ entry ∈ table.entries.toList, entry.1 ≠ offset) ∧
      index = (table.entries.toList.countP fun entry => entry.1 < offset) ∧ index < table.size := by
  have below (missing : ∀ entry ∈ table.entries.toList, entry.1 ≠ offset) :
      (table.entries.toList.countP fun entry => entry.1 < offset) = table.rank offset := by
    rw [rank_eq_countP sorted]
    refine List.countP_congr fun entry member => ?_
    have := missing entry member
    simp only [decide_eq_true_eq]
    omega
  constructor
  · intro found
    have missing : ∀ entry ∈ table.entries.toList, entry.1 ≠ offset := by
      rintro entry member rfl
      obtain ⟨_, found'⟩ := lookup_of_start sorted member
      cases found.symm.trans found'
    rw [lookup_of_no_start sorted missing] at found
    split at found
    · cases found
      exact ⟨missing, (below missing).symm, by assumption⟩
    · cases found
  · rintro ⟨missing, rfl, inRange⟩
    rw [below missing] at inRange ⊢
    rw [lookup_of_no_start sorted missing, if_pos inRange]

theorem lookup_eq_beyond : table.lookup offset = .beyond ↔
    ∀ entry ∈ table.entries.toList, entry.1 < offset := by
  have counted : table.rank offset = table.entries.toList.countP fun entry => entry.1 ≤ offset :=
    rank_eq_countP sorted
  constructor
  · intro found entry member
    have missing : ∀ entry ∈ table.entries.toList, entry.1 ≠ offset := by
      rintro entry member rfl
      obtain ⟨_, found'⟩ := lookup_of_start sorted member
      cases found.symm.trans found'
    rw [lookup_of_no_start sorted missing] at found
    split at found
    · cases found
    · rename_i all
      have bounded := rank_le sorted offset
      rw [size] at all
      have whole : (table.entries.toList.countP fun entry => entry.1 ≤ offset) =
          table.entries.toList.length := by
        rw [← counted, Array.length_toList]
        omega
      have reached := of_decide_eq_true (List.countP_eq_length.1 whole entry member)
      exact Nat.lt_of_le_of_ne reached (missing entry member)
  · intro below
    have missing : ∀ entry ∈ table.entries.toList, entry.1 ≠ offset :=
      fun entry member => Nat.ne_of_lt (below entry member)
    have whole : (table.entries.toList.countP fun entry => entry.1 ≤ offset) =
        table.entries.toList.length :=
      List.countP_eq_length.2 fun entry member => decide_eq_true (Nat.le_of_lt (below entry member))
    rw [Array.length_toList] at whole
    rw [lookup_of_no_start sorted missing, if_neg (by rw [counted, whole, size]; omega)]

end Lookup

/-- How a table addresses the elements that were pushed onto it from offset `start` on, and what the
pushes answered with. -/
structure Addresses [Width α] (start : Nat) (elements : List α) (offsets : List Nat)
    (table : OffsetTable α) : Prop where
  answers : offsets = (List.range elements.length).map fun index => start + room elements index
  next : table.next = start + (elements.map Width.width).sum
  stored : table.entries.toList.map Prod.fst = offsets
  increasing : offsets.Pairwise (· < ·)
  found (offset index : Nat) (element : α) : table.lookup offset = .found index element ↔
    elements[index]? = some element ∧ offsets[index]? = some offset
  inside (offset index : Nat) : table.lookup offset = .inside index ↔
    offset ∉ offsets ∧ index = offsets.countP (· < offset) ∧ index < elements.length
  beyond (offset : Nat) : table.lookup offset = .beyond ↔ ∀ below ∈ offsets, below < offset
  get? (index offset : Nat) (element : α) : table.get? index = some (offset, element) ↔
    table.lookup offset = .found index element
  iter (position offset index : Nat) (element : α) :
    table.iter[position]? = some (offset, index, element) ↔
      index = position ∧ table.lookup offset = .found position element

theorem addresses_pushAll [Width α] (start : Nat) (elements : List α)
    (wide : ∀ element ∈ elements, 1 ≤ Width.width element) :
    Addresses start elements ((startingAt start).pushAll elements).1
      ((startingAt start).pushAll elements).2 := by
  have stored : ((startingAt start).pushAll elements).2.entries.toList = laidOut start elements :=
    toList_pushAll (startingAt start) elements
  have answered : ((startingAt start).pushAll elements).1 = (laidOut start elements).map Prod.fst :=
    fst_pushAll (startingAt start) elements
  have next := next_pushAll (startingAt start) elements
  rw [answered]
  generalize ((startingAt start).pushAll elements).2 = table at stored next ⊢
  have sorted : table.Increasing := by
    rw [increasing_iff_pairwise, stored]
    exact pairwise_laidOut wide
  have size : table.size = elements.length := by
    rw [OffsetTable.size, ← Array.length_toList, stored, length_laidOut]
  have found (offset index : Nat) (element : α) : table.lookup offset = .found index element ↔
      (laidOut start elements)[index]? = some (offset, element) := by
    rw [lookup_eq_found sorted, ← Array.getElem?_toList, stored]
  have known (index offset : Nat) (element : α) :
      (laidOut start elements)[index]? = some (offset, element) ↔
        elements[index]? = some element ∧
          ((laidOut start elements).map Prod.fst)[index]? = some offset := by
    rw [List.getElem?_map, getElem?_laidOut]
    cases elements[index]? with
    | none => simp
    | some other => simp [and_comm]
  refine ⟨map_fst_laidOut start elements, next, congrArg _ stored,
    List.pairwise_map.2 (pairwise_laidOut wide), fun offset index element => ?_,
    fun offset index => ?_, fun offset => ?_, fun index offset element => ?_,
    fun position offset index element => ?_⟩
  · rw [found, known]
  · rw [lookup_eq_inside sorted, stored, size, List.countP_map]
    simp only [List.mem_map, not_exists, not_and, Function.comp_def]
  · rw [lookup_eq_beyond sorted, stored]
    simp only [List.forall_mem_map]
  · rw [found, OffsetTable.get?, ← Array.getElem?_toList, stored]
  · rw [found, OffsetTable.iter, stored, List.getElem?_map, List.getElem?_zipIdx]
    cases (laidOut start elements)[position]? with
    | none => simp
    | some entry =>
        obtain ⟨here, other⟩ := entry
        simp only [Nat.zero_add, Option.map_some, Option.some.injEq, Prod.mk.injEq]
        exact ⟨fun ⟨first, second, third⟩ => ⟨second.symm, first, third⟩,
          fun ⟨second, first, third⟩ => ⟨first, second.symm, third⟩⟩

/-- A table that is filled by pushes addresses each element by the room that the elements before it
take. It cannot be filled where an offset overflows. -/
theorem addressing [Width α] (start : Nat) (elements : List α) (word : start < wordLimit)
    (wide : ∀ element ∈ elements, 1 ≤ Width.width element) :
    (start + (elements.map Width.width).sum < wordLimit → ∃ offsets table,
      (startingAt start).pushAll? elements = some (offsets, table) ∧
        Addresses start elements offsets table) ∧
    (wordLimit ≤ start + (elements.map Width.width).sum →
      (startingAt start).pushAll? elements = none) := by
  rw [pushAll?_eq _ _ word]
  refine ⟨fun fits => ?_, fun beyond => if_neg (Nat.not_lt_of_le beyond)⟩
  exact ⟨_, _, if_pos fits, addresses_pushAll start elements wide⟩

theorem addressing_wide : ∃ table,
    (startingAt 1).pushAll? [Constant.integer 1, .long 2, .integer 3] = some ([1, 2, 4], table) ∧
      Addresses 1 [Constant.integer 1, .long 2, .integer 3] [1, 2, 4] table := by
  obtain ⟨offsets, table, pushed, addresses⟩ :=
    (addressing 1 [Constant.integer 1, .long 2, .integer 3] (by decide) (by decide)).1 (by decide)
  obtain rfl : offsets = [1, 2, 4] := addresses.answers
  exact ⟨table, pushed, addresses⟩

/-- The offset behind the second element would be the first number that is no word. -/
theorem not_addresses_overflow : ¬ ∃ offsets table,
    (startingAt (2 ^ 63 - 1)).pushAll? [Located.mk (2 ^ 63 - 1) (.plain []), ⟨2, .plain []⟩] =
      some (offsets, table) ∧
    Addresses (2 ^ 63 - 1) [Located.mk (2 ^ 63 - 1) (.plain []), ⟨2, .plain []⟩] offsets table := by
  rintro ⟨offsets, table, pushed, _⟩
  rw [pushAll?_eq _ _ (by decide), if_neg (by decide)] at pushed
  cases pushed

end ClassSplice.OffsetTable
