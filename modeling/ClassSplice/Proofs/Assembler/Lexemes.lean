import ClassSplice.Proofs.Assembler.Words

namespace ClassSplice.Assembler

open Text (isBlank)

section Strings

variable {read rest text : List Char} {c : Char}

theorem readQuoted_quote (read rest : List Char) :
    readQuoted read ('"' :: rest) = .ok (String.ofList read.reverse, rest) := by
  rw [readQuoted.eq_def]
  rfl

theorem readQuoted_plain (noQuote : c ≠ '"') (noEscape : c ≠ '\\') (read rest : List Char) :
    readQuoted read (c :: rest) = readQuoted (c :: read) rest := by
  rw [readQuoted.eq_def]
  simp only [noQuote, noEscape, if_false]

theorem readQuoted_escape (c : Char) (read rest : List Char) :
    readQuoted read ('\\' :: c :: rest) = match unescape? c with
      | some meant => readQuoted (meant :: read) rest
      | none => .error (.badEscape c) := by
  rw [readQuoted.eq_def]
  rfl

theorem readQuoted_append {string : String} (success : readQuoted read text = .ok (string, rest))
    (more : List Char) : readQuoted read (text ++ more) = .ok (string, rest ++ more) := by
  fun_induction readQuoted read text with
  | case1 | case3 | case5 => cases success
  | case2 read text =>
      cases success
      exact readQuoted_quote read _
  | case4 read escaped text meant known _ ih =>
      rw [List.cons_append, List.cons_append, readQuoted_escape, known]
      exact ih success
  | case6 read c text noQuote noEscape ih =>
      rw [List.cons_append, readQuoted_plain noQuote noEscape]
      exact ih success

theorem suffix_of_readQuoted {string : String} (success : readQuoted read text = .ok (string, rest)) :
    rest <:+ text := by
  fun_induction readQuoted read text with
  | case1 | case3 | case5 => cases success
  | case2 read text =>
      cases success
      exact List.suffix_cons _ _
  | case4 read escaped text meant known _ ih =>
      exact ((ih success).trans (List.suffix_cons _ _)).trans (List.suffix_cons _ _)
  | case6 read c text noQuote noEscape ih => exact (ih success).trans (List.suffix_cons _ _)

theorem readQuoted_concat {fault : SyntaxFault} (blank : isBlank c = true)
    (failure : readQuoted read text = .error fault) :
    ∃ fault', readQuoted read (text ++ [c]) = .error fault' := by
  fun_induction readQuoted read text with
  | case1 read =>
      have other : c ≠ '"' ∧ c ≠ '\\' := by
        constructor
        all_goals
          rintro rfl
          exact absurd blank (by decide)
      rw [List.nil_append, readQuoted_plain other.1 other.2]
      exact ⟨_, rfl⟩
  | case2 => cases failure
  | case3 read =>
      have unknown : unescape? c = none := by
        unfold unescape?
        split
        all_goals first | rfl | exact absurd blank (by decide)
      rw [List.cons_append, List.nil_append, readQuoted_escape, unknown]
      exact ⟨_, rfl⟩
  | case4 read escaped text meant known _ ih =>
      rw [List.cons_append, List.cons_append, readQuoted_escape, known]
      exact ih failure
  | case5 read escaped text unknown =>
      rw [List.cons_append, List.cons_append, readQuoted_escape, unknown]
      exact ⟨_, rfl⟩
  | case6 read c text noQuote noEscape ih =>
      rw [List.cons_append, readQuoted_plain noQuote noEscape]
      exact ih failure

end Strings

section Lexemes

variable {c : Char} {text rest : List Char} {lexeme : Lexeme}

theorem isPrefix_of_startsComment (starts : startsComment text = true) : ['/', '/'] <+: text := by
  unfold startsComment at starts
  split at starts
  · rename_i rest
    exact ⟨rest, rfl⟩
  · cases starts

theorem startsComment_append (starts : startsComment text = true) (more : List Char) :
    startsComment (text ++ more) = true := by
  obtain ⟨rest, rfl⟩ := isPrefix_of_startsComment starts
  rfl

theorem startsComment_blank (blank : isBlank c = true) (text more : List Char) :
    startsComment (text ++ c :: more) = startsComment text := by
  have other : c ≠ '/' := by
    rintro rfl
    exact absurd blank (by decide)
  cases text with
  | nil => exact startsComment_cons other more
  | cons d text =>
      by_cases slash : d = '/'
      · subst slash
        cases text with
        | nil => exact startsComment_slash other more
        | cons e text =>
            by_cases slash : e = '/'
            · subst slash
              rfl
            · rw [List.cons_append, List.cons_append, startsComment_slash slash,
                startsComment_slash slash]
      · rw [List.cons_append, startsComment_cons slash, startsComment_cons slash]

theorem isInfix_of_cutComment (cut : (cutComment text).2 = true) : ['/', '/'] <:+: text := by
  induction text with
  | nil => cases cut
  | cons c rest ih =>
      rw [cutComment] at cut
      split at cut
      · rename_i starts
        exact (isPrefix_of_startsComment starts).isInfix
      · exact (ih cut).trans (List.suffix_cons c rest).isInfix

theorem readWord_blank (blank : isBlank c = true) (text more : List Char) :
    readWord (text ++ c :: more) = ((readWord text).1,
      if (cutComment (text.takeWhile (!endsWord ·))).2 then []
      else (readWord text).2 ++ c :: more) := by
  have ends : (!endsWord c) = false := by rw [endsWord, blank]; rfl
  have front : (text ++ c :: more).takeWhile (!endsWord ·) = text.takeWhile (!endsWord ·) := by
    rw [List.takeWhile_append, List.takeWhile_cons, ends]
    split
    · rename_i whole
      rw [if_neg Bool.false_ne_true, List.append_nil]
      exact (List.takeWhile_prefix _).eq_of_length whole |>.symm
    · rfl
  have back : (text ++ c :: more).dropWhile (!endsWord ·) =
      text.dropWhile (!endsWord ·) ++ c :: more := by
    rw [List.dropWhile_append, List.dropWhile_cons, ends, if_neg Bool.false_ne_true]
    split
    · rename_i gone
      rw [List.isEmpty_iff.1 gone, List.nil_append]
    · rfl
  unfold readWord
  simp only [front, back]
  generalize cutComment (text.takeWhile (!endsWord ·)) = parts
  obtain ⟨word, _ | _⟩ := parts
  · rfl
  · rfl

theorem suffix_of_readWord (text : List Char) : (readWord text).2 <:+ text := by
  unfold readWord
  dsimp only
  split
  · exact List.nil_suffix
  · exact List.dropWhile_suffix _

def behindQuoted (string : String) : List Char → Lexeme × List Char
  | ';' :: rest => (⟨some (.quoted string), true⟩, rest)
  | rest => (⟨some (.quoted string), false⟩, rest)

theorem behindQuoted_cons (other : c ≠ ';') (string : String) (rest : List Char) :
    behindQuoted string (c :: rest) = (⟨some (.quoted string), false⟩, c :: rest) := by
  unfold behindQuoted
  split
  · rename_i same
    cases same
    exact absurd rfl other
  · rfl

theorem behindQuoted_blank (blank : isBlank c = true) (string : String) (rest more : List Char) :
    behindQuoted string (rest ++ c :: more) =
      ((behindQuoted string rest).1, (behindQuoted string rest).2 ++ c :: more) := by
  have noEnd : c ≠ ';' := by
    rintro rfl
    exact absurd blank (by decide)
  cases rest with
  | nil => exact behindQuoted_cons noEnd string more
  | cons d rest =>
      by_cases ends : d = ';'
      · subst ends
        rfl
      · rw [List.cons_append, behindQuoted_cons ends, behindQuoted_cons ends, List.cons_append]

theorem suffix_of_behindQuoted (string : String) (rest : List Char) :
    (behindQuoted string rest).2 <:+ rest := by
  unfold behindQuoted
  split
  · exact List.suffix_cons _ _
  · exact List.suffix_refl _

theorem readLexeme_quote (text : List Char) : readLexeme ('"' :: text) =
    (readQuoted [] text).map fun read => behindQuoted read.1 read.2 := by
  rw [readLexeme, if_pos rfl]
  split
  · rename_i read
    rw [read]
    rfl
  · rename_i read
    rw [read]
    rfl
  · rename_i string rest noEnd read
    rw [read]
    unfold behindQuoted Except.map
    dsimp only
    split
    · rename_i rest
      exact absurd rfl (noEnd rest)
    · rfl

theorem suffix_of_readLexeme (success : readLexeme text = .ok (lexeme, rest)) : rest <:+ text := by
  cases text with
  | nil =>
      cases success
      exact List.suffix_refl _
  | cons d text =>
      by_cases quote : d = '"'
      · subst quote
        rw [readLexeme_quote] at success
        cases read : readQuoted [] text with
        | error fault => rw [read] at success; cases success
        | ok made =>
            rw [read] at success
            have behind := suffix_of_behindQuoted made.1 made.2
            rw [show behindQuoted made.1 made.2 = (lexeme, rest) from Except.ok.inj success] at behind
            exact (behind.trans (suffix_of_readQuoted read)).trans (List.suffix_cons _ _)
      · rw [readLexeme, if_neg quote] at success
        split at success
        · cases success
          exact List.suffix_cons _ _
        · have behind := suffix_of_readWord (d :: text)
          rw [Except.ok.inj success] at behind
          exact behind

theorem readLexeme_blank (blank : isBlank c = true) (nonempty : text ≠ [])
    (success : readLexeme text = .ok (lexeme, rest)) (more : List Char) :
    readLexeme (text ++ c :: more) = .ok (lexeme, rest ++ c :: more) ∨
      ['/', '/'] <:+: text ∧ rest = [] ∧ readLexeme (text ++ c :: more) = .ok (lexeme, []) := by
  obtain ⟨d, text, rfl⟩ := List.exists_cons_of_ne_nil nonempty
  rw [List.cons_append]
  by_cases quote : d = '"'
  · subst quote
    rw [readLexeme_quote] at success ⊢
    cases read : readQuoted [] text with
    | error fault => rw [read] at success; cases success
    | ok made =>
        rw [read] at success
        have behind : behindQuoted made.1 made.2 = (lexeme, rest) := Except.ok.inj success
        rw [readQuoted_append read]
        refine .inl (congrArg Except.ok ?_)
        exact (behindQuoted_blank blank made.1 made.2 more).trans (by rw [behind])
  · rw [readLexeme, if_neg quote] at success ⊢
    by_cases ends : d = ';'
    · rw [if_pos ends] at success ⊢
      cases success
      exact .inl rfl
    · rw [if_neg ends] at success ⊢
      rw [← List.cons_append, readWord_blank blank, Except.ok.inj success]
      split
      · rename_i cut
        refine .inr ⟨(isInfix_of_cutComment cut).trans (List.takeWhile_prefix _).isInfix, ?_, rfl⟩
        have behind := congrArg Prod.snd (Except.ok.inj success)
        unfold readWord at behind
        simp only [cut, if_true] at behind
        exact behind.symm
      · exact .inl rfl

theorem readLexeme_concat {fault : SyntaxFault} (blank : isBlank c = true)
    (failure : readLexeme text = .error fault) :
    ∃ fault', readLexeme (text ++ [c]) = .error fault' := by
  cases text with
  | nil => cases failure
  | cons d text =>
      by_cases quote : d = '"'
      · subst quote
        rw [readLexeme_quote] at failure
        rw [List.cons_append, readLexeme_quote]
        cases read : readQuoted [] text with
        | error fault =>
            obtain ⟨fault', read⟩ := readQuoted_concat blank read
            exact ⟨fault', by rw [read]; rfl⟩
        | ok made => rw [read] at failure; cases failure
      · rw [readLexeme, if_neg quote] at failure
        split at failure
        · cases failure
        · cases failure

end Lexemes

end ClassSplice.Assembler
