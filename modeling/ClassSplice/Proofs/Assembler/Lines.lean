import ClassSplice.Proofs.Assembler.ParallelSteps
import ClassSplice.Proofs.Assembler.Splitting
import ClassSplice.Proofs.Text.Trim

namespace ClassSplice.Assembler

open Code (Buffer)
open Text (isBlank trim trim_eq rdropWhile_append)

variable {shift : Shift}

theorem length_onFirstLine (c : Char) (lines : List (List Char)) :
    (onFirstLine c lines).length = max 1 lines.length := by
  cases lines with
  | nil => rfl
  | cons line lines => simp [onFirstLine]

theorem onFirstLine_append (c : Char) {lines : List (List Char)} (nonempty : lines ≠ [])
    (rest : List (List Char)) : onFirstLine c (lines ++ rest) = onFirstLine c lines ++ rest := by
  cases lines with
  | nil => exact absurd rfl nonempty
  | cons line lines => rfl

theorem splitLines_cons {c : Char} {text : List Char} (inside : c ≠ '\n')
    (alone : c = '\r' → text.head? ≠ some '\n') :
    splitLines (c :: text) = onFirstLine c (splitLines text) := by
  rw [splitLines]
  · exact inside
  · rintro rest rfl rfl
    exact alone rfl rfl

theorem length_splitLines (text : List Char) : (splitLines text).length = text.count '\n' + 1 := by
  fun_induction splitLines text with
  | case1 => rfl
  | case2 rest ih => simp [ih]
  | case3 rest ih => simp [ih]
  | case4 c rest inside _ ih =>
      rw [length_onFirstLine, ih, List.count_cons_of_ne inside]
      omega

theorem splitLines_break (front : List Char) : ∃ lines, lines.length = front.count '\n' + 1 ∧
    ∀ rest, splitLines (front ++ '\n' :: rest) = lines ++ splitLines rest := by
  fun_induction splitLines front with
  | case1 => exact ⟨[[]], rfl, fun rest => rfl⟩
  | case2 front ih =>
      obtain ⟨lines, length, split⟩ := ih
      exact ⟨[] :: lines, by simp [length], fun rest => by simp [splitLines, split]⟩
  | case3 front ih =>
      obtain ⟨lines, length, split⟩ := ih
      exact ⟨[] :: lines, by simp [length], fun rest => by simp [splitLines, split]⟩
  | case4 c front inside alone ih =>
      obtain ⟨lines, length, split⟩ := ih
      by_cases ends : c = '\r' ∧ front = []
      -- The line feed belongs to a carriage return in front of it.
      · obtain ⟨rfl, rfl⟩ := ends
        exact ⟨[[]], rfl, fun rest => rfl⟩
      · have nonempty : lines ≠ [] := List.ne_nil_of_length_pos (by omega)
        refine ⟨onFirstLine c lines, ?_, fun rest => ?_⟩
        · rw [length_onFirstLine, length, List.count_cons_of_ne inside]
          omega
        · rw [List.cons_append, splitLines_cons inside, split, onFirstLine_append c nonempty]
          rintro rfl
          cases front with
          | nil => exact absurd ⟨rfl, rfl⟩ ends
          | cons next front =>
            rintro ⟨⟩
            exact alone _ rfl rfl

theorem splitLines_breaks (count : Nat) (text : List Char) :
    splitLines (List.replicate count '\n' ++ text) = List.replicate count [] ++ splitLines text := by
  induction count with
  | zero => rfl
  | succ count ih =>
      rw [List.replicate_succ, List.replicate_succ, List.cons_append, List.cons_append, splitLines, ih]

theorem readLines_append (line : Nat) (done : List Statement) (texts rest : List (List Char)) :
    readLines line done (texts ++ rest) = readLines line done texts >>= fun statements =>
      readLines (line + texts.length) statements.reverse rest := by
  induction texts generalizing line done with
  | nil => simp [readLines, ok_bind]
  | cons text texts ih =>
      rw [List.cons_append, readLines, readLines]
      cases readLine line ⟨done, []⟩ text with
      | error => rfl
      | ok done =>
          dsimp only
          rw [ih, List.length_cons, Nat.add_right_comm, Nat.add_assoc]

theorem readLines_breaks (line : Nat) (done : List Statement) (count : Nat) (rest : List (List Char)) :
    readLines line done (List.replicate count [] ++ rest) = readLines (line + count) done rest := by
  induction count generalizing line with
  | zero => rfl
  | succ count ih =>
      rw [List.replicate_succ, List.cons_append, readLines, readLine_nil]
      show readLines (line + 1) done _ = _
      rw [ih, Nat.add_right_comm, Nat.add_assoc]

theorem dropWhile_breaks (count : Nat) (text : List Char) :
    (List.replicate count '\n' ++ text).dropWhile isBlank = text.dropWhile isBlank := by
  induction count with
  | zero => rfl
  | succ count ih =>
      have blank : isBlank '\n' = true := by decide +kernel
      rw [List.replicate_succ, List.cons_append, List.dropWhile_cons, if_pos blank, ih]

theorem rdropWhile_breaks (count : Nat) : (List.replicate count '\n').rdropWhile isBlank = [] := by
  have gone := dropWhile_breaks count []
  rw [List.append_nil] at gone
  rw [List.rdropWhile, List.reverse_replicate, gone]
  rfl

def withoutBraces : List Char → Except Fault (List Char)
  | '\x7b' :: inner =>
    if inner.getLast? = some '\x7d' then .ok inner.dropLast
    else .error ⟨1, .badSyntax .unbalancedBrace⟩
  | text => .ok text

theorem unwrap_eq (text : List Char) : unwrap text = withoutBraces (trim text) :=
  rfl

theorem sublist_of_withoutBraces {text inner : List Char} (unwrapped : withoutBraces text = .ok inner) :
    inner.Sublist text := by
  unfold withoutBraces at unwrapped
  split at unwrapped
  · split at unwrapped
    · cases unwrapped
      exact (List.dropLast_sublist _).cons _
    · cases unwrapped
  · cases unwrapped
    exact .refl _

section Breaks

variable (front back : List Char) (count : Nat)

def withBreaks : List Char :=
  front ++ '\n' :: (List.replicate count '\n' ++ back)

theorem trim_withBreaks : trim (withBreaks front back count) =
    if front.dropWhile isBlank = [] then trim back
    else if back.rdropWhile isBlank = [] then (front.dropWhile isBlank).rdropWhile isBlank
    else withBreaks (front.dropWhile isBlank) (back.rdropWhile isBlank) count := by
  have breaks : '\n' :: (List.replicate count '\n' ++ back) =
      List.replicate (count + 1) '\n' ++ back := rfl
  rw [trim_eq, withBreaks, breaks, List.dropWhile_append, dropWhile_breaks]
  simp only [List.isEmpty_iff]
  split
  · rfl
  · rw [rdropWhile_append, rdropWhile_append, rdropWhile_breaks]
    split
    · rfl
    · split
      · rename_i nonempty gone
        simp at gone
      · rfl

theorem getLast?_withBreaks (ends : back ≠ []) :
    (withBreaks front back count).getLast? = back.getLast? := by
  rw [withBreaks, ← List.cons_append, ← List.append_assoc, List.getLast?_append_of_ne_nil _ ends]

theorem dropLast_withBreaks (ends : back ≠ []) :
    (withBreaks front back count).dropLast = withBreaks front back.dropLast count := by
  rw [withBreaks, ← List.cons_append, ← List.append_assoc, List.dropLast_append_of_ne_nil ends,
    List.append_assoc]
  rfl

theorem withoutBraces_withBreaks {front back : List Char} (starts : front ≠ []) (ends : back ≠ []) :
    (∀ count, withoutBraces (withBreaks front back count) = .error ⟨1, .badSyntax .unbalancedBrace⟩) ∨
    ∃ front' back', front'.count '\n' = front.count '\n' ∧
      ∀ count, withoutBraces (withBreaks front back count) = .ok (withBreaks front' back' count) := by
  cases front with
  | nil => exact absurd rfl starts
  | cons c front =>
      by_cases braced : c = '\x7b'
      · subst braced
        have opened (count : Nat) : withoutBraces (withBreaks ('\x7b' :: front) back count) =
            if (withBreaks front back count).getLast? = some '\x7d' then
              .ok (withBreaks front back count).dropLast
            else .error ⟨1, .badSyntax .unbalancedBrace⟩ := rfl
        simp only [getLast?_withBreaks front back _ ends,
          dropLast_withBreaks front back _ ends] at opened
        by_cases closed : back.getLast? = some '\x7d'
        · simp only [if_pos closed] at opened
          exact .inr ⟨front, back.dropLast, by simp, opened⟩
        · simp only [if_neg closed] at opened
          exact .inl opened
      · refine .inr ⟨c :: front, back, rfl, fun count => ?_⟩
        unfold withoutBraces withBreaks
        split
        · rename_i inner same
          cases same
          exact absurd rfl braced
        · rfl

/-- What is left of a text without the braces around it has as many line breaks in front, or it ends in
front of those that are put in. -/
theorem unwrap_withBreaks :
    (∃ result, (∀ count, unwrap (withBreaks front back count) = result) ∧
      ∀ text, result = .ok text → front.dropWhile isBlank = [] ∨
        text.count '\n' ≤ (front.dropWhile isBlank).count '\n') ∨
    ∃ front' back', front'.count '\n' = (front.dropWhile isBlank).count '\n' ∧
      front.dropWhile isBlank ≠ [] ∧
      ∀ count, unwrap (withBreaks front back count) = .ok (withBreaks front' back' count) := by
  have trimmed := trim_withBreaks front back
  simp only [unwrap_eq]
  by_cases blank : front.dropWhile isBlank = []
  · simp only [if_pos blank] at trimmed
    exact .inl ⟨_, fun count => by rw [trimmed], fun _ _ => .inl blank⟩
  · simp only [if_neg blank] at trimmed
    by_cases ends : back.rdropWhile isBlank = []
    · simp only [if_pos ends] at trimmed
      refine .inl ⟨_, fun count => by rw [trimmed], fun text unwrapped => .inr ?_⟩
      exact ((sublist_of_withoutBraces unwrapped).trans (List.rdropWhile_prefix _ _).sublist).count_le _
    · simp only [if_neg ends] at trimmed
      obtain refused | ⟨front', back', same, unwrapped⟩ := withoutBraces_withBreaks blank ends
      · refine .inl ⟨_, fun count => by rw [trimmed, refused], ?_⟩
        rintro text ⟨⟩
      · exact .inr ⟨front', back', same, blank, fun count => by rw [trimmed, unwrapped]⟩

end Breaks

section Lines

variable {source source' : String} {scope : Scope} {buffer : Buffer} {pool : Pool}

/-- The line that a line becomes when `count` line breaks are put in behind a line break at the end of
`front`. Nothing is moved where nothing is visible in front of them. -/
def movedLine (front : List Char) (count line : Nat) : Nat :=
  if front.dropWhile isBlank = [] ∨ line ≤ (front.dropWhile isBlank).count '\n' + 1 then line
  else line + count

theorem splits_readLines_withBreaks {front back : List Char} {count last : Nat}
    (counted : front.count '\n' + 1 = last) (near : ∀ line ≤ last, shift.lines line line)
    (far : ∀ line, last < line → shift.lines line (line + count)) :
    shift.Splits (readLines 1 [] (splitLines (withBreaks front back 0)))
      (readLines 1 [] (splitLines (withBreaks front back count))) := by
  obtain ⟨lines, length, split⟩ := splitLines_break front
  have first : shift.Splits (readLines 1 [] lines) (readLines 1 [] lines) :=
    splits_readLines (fun i inside => near _ (by omega)) .nil
  simp only [withBreaks, split, splitLines_breaks]
  rw [readLines_append, readLines_append]
  generalize readLines 1 [] lines = read at first
  cases first with
  | error faults => exact .error faults
  | ok same =>
      rw [ok_bind, ok_bind, readLines_breaks, readLines_breaks]
      -- What is put in has no statements, and only the lines behind it are counted on.
      refine splits_readLines (fun i _ => ?_) (List.rel_reverse same)
      have moved := far (1 + lines.length + i) (by omega)
      rwa [Nat.add_right_comm _ i] at moved

theorem splits_withBreaks (front back : List Char) (count : Nat)
    (lines : ∀ line, shift.lines line (movedLine front count line)) :
    shift.Splits (statements (String.ofList (withBreaks front back 0)))
      (statements (String.ofList (withBreaks front back count))) := by
  have near {line : Nat} (low : front.dropWhile isBlank = [] ∨
      line ≤ (front.dropWhile isBlank).count '\n' + 1) : shift.lines line line := by
    have moved := lines line
    rwa [movedLine, if_pos low] at moved
  unfold statements
  rw [String.toList_ofList, String.toList_ofList]
  obtain ⟨result, same, few⟩ | ⟨front', back', same, visible, unwrapped⟩ := unwrap_withBreaks front back
  -- Nothing visible stands on one side of the line breaks, and they are trimmed away.
  · rw [same, same]
    cases result with
    | error fault =>
        rw [unwrap_eq_error (same 0)]
        exact .error ⟨near (.inr (Nat.le_add_left 1 _)), rfl⟩
    | ok text =>
        refine splits_readLines (fun i inside => near ((few text rfl).imp_right fun few => ?_)) .nil
        rw [length_splitLines] at inside
        omega
  · rw [unwrapped, unwrapped]
    refine splits_readLines_withBreaks (congrArg (· + 1) same) (fun line low => near (.inr low)) ?_
    intro line high
    have moved := lines line
    rwa [movedLine, if_neg (by simp only [visible, false_or]; omega)] at moved

def renumbered {α : Type} (number : Nat → Nat) : Except Fault α × Pool → Except Fault α × Pool
  | (.ok value, pool) => (.ok value, pool)
  | (.error fault, pool) => (.error { fault with line := number fault.line }, pool)

theorem outcome_of_splits {number : Nat → Nat}
    (splits : Shift.Splits ⟨.empty 0 0, fun line line' => line' = number line⟩ (statements source)
      (statements source')) :
    outcome (assemble source' scope buffer) pool =
      renumbered number (outcome (assemble source scope buffer) pool) := by
  have ends : Shift.Ends _ (outcome (assemble source scope buffer) pool) _ :=
    ends_assemble_of_pc rfl splits
  rw [Buffer.onto_empty] at ends
  generalize outcome (assemble source scope buffer) pool = result at ends ⊢
  generalize outcome (assemble source' scope buffer) pool = result' at ends ⊢
  cases ends with
  | ok moved =>
      rw [moved, Buffer.onto_empty]
      rfl
  | @error fault fault' _ faults =>
      obtain ⟨line', cause'⟩ := fault'
      obtain rfl : line' = number fault.line := faults.line
      obtain rfl : cause' = fault.cause := faults.cause.trans (Cause.moved_zero _)
      rfl

def lineBreaks (count : Nat) : String :=
  String.ofList (List.replicate count '\n')

/-- Line breaks in front of a listing change nothing. Those that are put in behind a line break move the
lines of faults behind them, if something is visible in front of them. -/
theorem assemble_line_breaks (front back : String) (count : Nat) (scope : Scope) (buffer : Buffer)
    (pool : Pool) :
    outcome (assemble (lineBreaks count ++ back) scope buffer) pool =
        outcome (assemble back scope buffer) pool ∧
      outcome (assemble (front ++ "\n" ++ lineBreaks count ++ back) scope buffer) pool =
        renumbered (movedLine front.toList count)
          (outcome (assemble (front ++ "\n" ++ back) scope buffer) pool) := by
  constructor
  · have same : statements (lineBreaks count ++ back) = statements back := by
      unfold statements
      rw [String.toList_append, lineBreaks, String.toList_ofList, unwrap_eq, unwrap_eq, trim_eq, trim_eq,
        dropWhile_breaks]
    unfold assemble
    rw [same]
  · have plain : front ++ "\n" ++ back = String.ofList (withBreaks front.toList back.toList 0) := by
      apply String.toList_injective
      simp [withBreaks]
    have broken : front ++ "\n" ++ lineBreaks count ++ back =
        String.ofList (withBreaks front.toList back.toList count) := by
      apply String.toList_injective
      simp [withBreaks, lineBreaks]
    rw [plain, broken]
    exact outcome_of_splits (splits_withBreaks _ _ count fun _ => rfl)

end Lines

end ClassSplice.Assembler
