import ClassSplice.Proofs.Assembler.Parallel

namespace ClassSplice.Assembler

variable {shift : Shift} {line line' : Nat}

structure Shift.OpenLines (shift : Shift) (one other : OpenLine) : Prop where
  done : List.Forall₂ shift.Statements one.done other.done
  tokens : other.tokens = one.tokens

theorem Shift.OpenLines.close {one other : OpenLine} (same : shift.OpenLines one other)
    (lines : shift.lines line line') : shift.OpenLines (one.close line) (other.close line') := by
  unfold OpenLine.close
  rw [same.tokens]
  split
  · exact same
  · exact ⟨.cons ⟨lines, rfl⟩ same.done, rfl⟩

theorem Shift.OpenLines.add {one other : OpenLine} (same : shift.OpenLines one other)
    (lines : shift.lines line line') (lexeme : Lexeme) :
    shift.OpenLines (one.add line lexeme) (other.add line' lexeme) := by
  obtain ⟨token | token, ends⟩ := lexeme
  · cases ends with
    | false => exact same
    | true => exact same.close lines
  · have pushed : shift.OpenLines { one with tokens := token :: one.tokens }
        { other with tokens := token :: other.tokens } := ⟨same.done, by rw [same.tokens]⟩
    cases ends with
    | false => exact pushed
    | true => exact pushed.close lines

theorem readLine_eq (line : Nat) (state : OpenLine) (text : List Char) :
    readLine line state text =
      if text.dropWhile Text.isBlank = [] ∨ startsComment (text.dropWhile Text.isBlank) then
        .ok (state.close line).done
      else
        match readLexeme (text.dropWhile Text.isBlank) with
        | .error fault => .error ⟨line, .badSyntax fault⟩
        | .ok (lexeme, rest) => readLine line (state.add line lexeme) rest := by
  rw [readLine]
  split
  · rfl
  · split
    · rename_i read
      rw [read]
    · rename_i read
      simp only [read]

theorem readLine_nil {state : OpenLine} : readLine line state [] = .ok (state.close line).done := by
  rw [readLine_eq]
  rfl

theorem splits_readLine (lines : shift.lines line line') {one other : OpenLine}
    (same : shift.OpenLines one other) (text : List Char) :
    shift.Splits (readLine line one text) (readLine line' other text) := by
  fun_induction readLine line one text generalizing other with
  | case1 one text =>
      rename_i stop
      rw [readLine_eq, if_pos stop]
      exact .ok (same.close lines).done
  | case2 one text =>
      rename_i goesOn fault read
      rw [readLine_eq, if_neg goesOn, read]
      exact .error ⟨lines, rfl⟩
  | case3 one text =>
      rename_i goesOn lexeme rest read _ _ ih
      rw [readLine_eq line' other, if_neg goesOn, read]
      exact ih (same.add lines lexeme)

theorem splits_readLines {texts : List (List Char)} {done done' : List Statement}
    (numbers : ∀ i < texts.length, shift.lines (line + i) (line' + i))
    (same : List.Forall₂ shift.Statements done done') :
    shift.Splits (readLines line done texts) (readLines line' done' texts) := by
  induction texts generalizing line line' done done' with
  | nil => exact .ok (List.rel_reverse same)
  | cons text texts ih =>
      have open' : shift.OpenLines ⟨done, []⟩ ⟨done', []⟩ := ⟨same, rfl⟩
      have split := splits_readLine (numbers 0 (Nat.zero_lt_succ _)) open' text
      unfold readLines
      generalize readLine _ _ text = first at split ⊢
      generalize readLine _ _ text = first' at split ⊢
      cases split with
      | error faults => exact .error faults
      | ok same =>
          refine ih (fun i inside => ?_) same
          have := numbers (i + 1) (Nat.succ_lt_succ inside)
          rwa [Nat.add_right_comm, Nat.add_right_comm line']

theorem unwrap_eq_error {text : List Char} {fault : Fault} (refused : unwrap text = .error fault) :
    fault = ⟨1, .badSyntax .unbalancedBrace⟩ := by
  unfold unwrap at refused
  split at refused
  · split at refused
    · cases refused
    · cases refused
      rfl
  · cases refused

theorem splits_statements (numbers : ∀ number, shift.lines number number) (source : String) :
    shift.Splits (statements source) (statements source) := by
  unfold statements
  cases unwrapped : unwrap source.toList with
  | error fault =>
      rw [unwrap_eq_error unwrapped]
      exact .error ⟨numbers 1, rfl⟩
  | ok text => exact splits_readLines (fun i _ => numbers (1 + i)) .nil

end ClassSplice.Assembler
