import ClassSplice.Text.Blank
import Mathlib

namespace ClassSplice.Text

variable {front text back : List Char}

theorem trim_eq (text : List Char) : trim text = (text.dropWhile isBlank).rdropWhile isBlank :=
  rfl

theorem rdropWhile_append (front back : List Char) : (front ++ back).rdropWhile isBlank =
    if back.rdropWhile isBlank = [] then front.rdropWhile isBlank
    else front ++ back.rdropWhile isBlank := by
  simp only [List.rdropWhile, List.reverse_append, List.dropWhile_append, List.isEmpty_iff,
    List.reverse_eq_nil_iff]
  split
  · rfl
  · rw [List.reverse_append, List.reverse_reverse]

theorem trim_of_ends (first : ∀ c, text.head? = some c → isBlank c = false)
    (last : ∀ c, text.getLast? = some c → isBlank c = false) : trim text = text := by
  have front : text.dropWhile isBlank = text := by
    cases text with
    | nil => rfl
    | cons c text => rw [List.dropWhile_cons, first c rfl]; rfl
  rw [trim_eq, front, List.rdropWhile_eq_self_iff]
  intro nonempty
  rw [last _ (List.getLast?_eq_some_getLast nonempty)]
  decide

theorem head_trim (text : List Char) : (trim text).head? = (text.dropWhile isBlank).head? := by
  rw [trim_eq]
  cases stands : text.dropWhile isBlank with
  | nil => rfl
  | cons c rest =>
      have visible : isBlank c = false := by
        have first := List.head?_dropWhile_not isBlank text
        rw [stands] at first
        simpa using first
      obtain ⟨back, whole⟩ := List.rdropWhile_prefix isBlank (c :: rest)
      cases kept : (c :: rest).rdropWhile isBlank with
      | nil =>
          have blank := List.rdropWhile_eq_nil_iff.1 kept c List.mem_cons_self
          rw [visible] at blank
          cases blank
      | cons d front =>
          rw [kept] at whole
          cases whole
          rfl

theorem trim_dropWhile (text : List Char) : trim (text.dropWhile isBlank) = trim text := by
  rw [trim_eq, trim_eq, List.dropWhile_idempotent]

theorem trim_surrounded (blankFront : ∀ c ∈ front, isBlank c = true)
    (blankBack : ∀ c ∈ back, isBlank c = true) : trim (front ++ text ++ back) = trim text := by
  have gone : back.rdropWhile isBlank = [] := List.rdropWhile_eq_nil_iff.2 blankBack
  have noBack : back.dropWhile isBlank = [] := List.dropWhile_eq_nil_iff.2 blankBack
  rw [trim_eq, trim_eq, List.append_assoc, List.dropWhile_append_of_pos blankFront,
    List.dropWhile_append]
  split
  · rename_i blank
    rw [noBack, List.isEmpty_iff.1 blank]
  · rw [rdropWhile_append, if_pos gone]

end ClassSplice.Text
