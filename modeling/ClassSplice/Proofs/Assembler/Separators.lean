import ClassSplice.Proofs.Assembler.Lexemes

/-!
Line breaks and semicolons separate statements alike (`separators_interchange`). What is read on a line
depends neither on the lines before it nor on blanks around it, so that the tokens of a text are those of
its lines, one after the other (`textTokens`).
-/

namespace ClassSplice.Assembler

open Text (isBlank trim trim_eq trim_of_ends head_trim)

section Tokens

variable {line line' : Nat} {c : Char}

/-- The tokens of the statements that are read, if there is no fault. -/
def tokensOf (result : Except Fault (List Statement)) : Option (List (List Token)) :=
  result.toOption.map (·.map Statement.tokens)

structure OpenLine.Behind (prior : List (List Token)) (one other : OpenLine) : Prop where
  done : other.done.map Statement.tokens = one.done.map Statement.tokens ++ prior
  tokens : other.tokens = one.tokens

variable {prior : List (List Token)} {one other : OpenLine}

theorem OpenLine.Behind.close (behind : OpenLine.Behind prior one other) :
    OpenLine.Behind prior (one.close line) (other.close line') := by
  unfold OpenLine.close
  rw [behind.tokens]
  split
  · exact behind
  · exact ⟨congrArg (_ :: ·) behind.done, rfl⟩

theorem OpenLine.Behind.add (behind : OpenLine.Behind prior one other) (lexeme : Lexeme) :
    OpenLine.Behind prior (one.add line lexeme) (other.add line' lexeme) := by
  obtain ⟨token | token, ends⟩ := lexeme
  · cases ends with
    | false => exact behind
    | true => exact behind.close
  · have pushed : OpenLine.Behind prior { one with tokens := token :: one.tokens }
        { other with tokens := token :: other.tokens } := ⟨behind.done, by rw [behind.tokens]⟩
    cases ends with
    | false => exact pushed
    | true => exact pushed.close

theorem tokensOf_readLine_of_behind (behind : OpenLine.Behind prior one other) (line line' : Nat)
    (text : List Char) :
    tokensOf (readLine line' other text) = (tokensOf (readLine line one text)).map (· ++ prior) := by
  fun_induction readLine line one text generalizing other with
  | case1 one text =>
      rename_i stop
      rw [readLine_eq, if_pos stop]
      exact congrArg some behind.close.done
  | case2 one text =>
      rename_i goesOn fault read
      rw [readLine_eq, if_neg goesOn, read]
      rfl
  | case3 one text =>
      rename_i goesOn lexeme rest read _ _ ih
      rw [readLine_eq line' other, if_neg goesOn, read]
      exact ih (behind.add lexeme)

theorem goesOn_append {text : List Char} (blank : isBlank c = true)
    (goesOn : ¬ (text.dropWhile isBlank = [] ∨ startsComment (text.dropWhile isBlank) = true))
    (more : List Char) :
    (text ++ c :: more).dropWhile isBlank = text.dropWhile isBlank ++ c :: more ∧
      ¬ (text.dropWhile isBlank ++ c :: more = [] ∨
        startsComment (text.dropWhile isBlank ++ c :: more) = true) := by
  obtain ⟨visible, noComment⟩ := not_or.1 goesOn
  constructor
  · rw [List.dropWhile_append, if_neg (by rwa [List.isEmpty_iff])]
  · rw [startsComment_blank blank]
    simpa using noComment

theorem tokensOf_readLine_concat (blank : isBlank c = true) (state : OpenLine) (text : List Char) :
    tokensOf (readLine line state (text ++ [c])) = tokensOf (readLine line state text) := by
  fun_induction readLine line state text with
  | case1 state text =>
      rename_i stop
      rw [readLine_eq, List.dropWhile_append, if_pos]
      obtain gone | comment := stop
      · rw [if_pos (List.isEmpty_iff.2 gone), List.dropWhile_cons, if_pos blank]
        exact .inl rfl
      · split
        · rw [List.dropWhile_cons, if_pos blank]
          exact .inl rfl
        · exact .inr (startsComment_append comment [c])
  | case2 state text =>
      rename_i goesOn fault read
      obtain ⟨stands, goesOn⟩ := goesOn_append blank goesOn []
      obtain ⟨fault', read⟩ := readLexeme_concat blank read
      rw [readLine_eq, stands, if_neg goesOn, read]
      rfl
  | case3 state text =>
      rename_i goesOn lexeme rest lexed _ _ ih
      obtain ⟨stands, goesOnBehind⟩ := goesOn_append blank goesOn []
      rw [readLine_eq, stands, if_neg goesOnBehind]
      obtain read | ⟨-, rfl, read⟩ := readLexeme_blank blank (not_or.1 goesOn).1 lexed []
      · rw [read]
        exact ih
      · rw [read]

theorem close_eq (state : OpenLine) (line : Nat) : state.close line = ⟨(state.close line).done, []⟩ := by
  unfold OpenLine.close
  split
  · rename_i none
    rw [← List.isEmpty_iff.1 none]
  · rfl

theorem readLine_semicolon {state : OpenLine} {text rest : List Char} {done : List Statement}
    (free : ¬ ['/', '/'] <:+: text) (success : readLine line state text = .ok done) :
    readLine line state (text ++ ' ' :: ';' :: rest) = readLine line ⟨done, []⟩ rest := by
  have blank : isBlank ' ' = true := by decide
  have noBlank : isBlank ';' = false := by decide
  fun_induction readLine line state text with
  | case1 state text =>
      rename_i stop
      have gone : text.dropWhile isBlank = [] := stop.resolve_right fun starts =>
        free ((isPrefix_of_startsComment starts).isInfix.trans (List.dropWhile_suffix _).isInfix)
      have stands : (text ++ ' ' :: ';' :: rest).dropWhile isBlank = ';' :: rest := by
        rw [List.dropWhile_append, gone]
        simp [blank, noBlank]
      have goesOn : ¬ (';' :: rest = [] ∨ startsComment (';' :: rest) = true) := by
        rw [startsComment_cons (by decide)]
        simp
      cases success
      rw [← close_eq state line, readLine_eq, stands, if_neg goesOn]
      rfl
  | case2 => cases success
  | case3 state text =>
      rename_i goesOn lexeme behind lexed _ _ ih
      have visible : text.dropWhile isBlank <:+: text := (List.dropWhile_suffix _).isInfix
      obtain ⟨stands, goesOnBehind⟩ := goesOn_append blank goesOn (';' :: rest)
      rw [readLine_eq, stands, if_neg goesOnBehind]
      obtain read | ⟨comment, -⟩ :=
        readLexeme_blank blank (not_or.1 goesOn).1 lexed (';' :: rest)
      · rw [read]
        exact ih (fun comment =>
          free (comment.trans ((suffix_of_readLexeme lexed).isInfix.trans visible))) success
      · exact absurd (comment.trans visible) free

def lineTokens (text : List Char) : Option (List (List Token)) :=
  (tokensOf (readLine 1 ⟨[], []⟩ text)).map List.reverse

theorem tokensOf_readLine (line : Nat) (done : List Statement) (text : List Char) :
    tokensOf (readLine line ⟨done, []⟩ text) =
      (lineTokens text).map fun found => found.reverse ++ done.map Statement.tokens := by
  have behind : OpenLine.Behind (done.map Statement.tokens) ⟨[], []⟩ ⟨done, []⟩ := ⟨rfl, rfl⟩
  rw [tokensOf_readLine_of_behind behind 1, lineTokens, Option.map_map]
  congr 1
  funext found
  exact congrArg (· ++ _) found.reverse_reverse.symm

theorem lineTokens_cons (blank : isBlank c = true) (text : List Char) :
    lineTokens (c :: text) = lineTokens text := by
  rw [lineTokens, readLine_blank blank]
  rfl

theorem lineTokens_concat (blank : isBlank c = true) (text : List Char) :
    lineTokens (text ++ [c]) = lineTokens text := by
  rw [lineTokens, tokensOf_readLine_concat blank]
  rfl

theorem lineTokens_nil : lineTokens [] = some [] := by
  rw [lineTokens, readLine_nil]
  rfl

theorem lineTokens_semicolon {text : List Char} {found : List (List Token)}
    (free : ¬ ['/', '/'] <:+: text) (success : lineTokens text = some found) (rest : List Char) :
    lineTokens (text ++ ' ' :: ';' :: rest) = (lineTokens rest).map (found ++ ·) := by
  unfold lineTokens at success
  cases read : readLine 1 ⟨[], []⟩ text with
  | error fault => rw [read] at success; cases success
  | ok done =>
      rw [read] at success
      cases success
      rw [lineTokens, readLine_semicolon free read, tokensOf_readLine, Option.map_map]
      congr 1
      funext found
      simp

def linesTokens : List (List Char) → Option (List (List Token))
  | [] => some []
  | text :: rest => do
    let found ← lineTokens text
    let behind ← linesTokens rest
    return found ++ behind

theorem linesTokens_cons (text : List Char) (rest : List (List Char)) :
    linesTokens (text :: rest) =
      (lineTokens text).bind fun found => (linesTokens rest).map (found ++ ·) := by
  rw [linesTokens]
  cases lineTokens text with
  | none => rfl
  | some found =>
      cases linesTokens rest with
      | none => rfl
      | some behind => rfl

theorem linesTokens_append (front rest : List (List Char)) :
    linesTokens (front ++ rest) =
      (linesTokens front).bind fun found => (linesTokens rest).map (found ++ ·) := by
  induction front with
  | nil => simp [linesTokens]
  | cons text front ih =>
      rw [List.cons_append, linesTokens_cons, linesTokens_cons, ih]
      cases lineTokens text with
      | none => rfl
      | some found =>
          cases linesTokens front with
          | none => rfl
          | some behind => simp [Function.comp_def]

theorem tokensOf_readLines (line : Nat) (done : List Statement) (texts : List (List Char)) :
    tokensOf (readLines line done texts) =
      (linesTokens texts).map (done.reverse.map Statement.tokens ++ ·) := by
  induction texts generalizing line done with
  | nil => simp [readLines, linesTokens, tokensOf, Except.toOption]
  | cons text texts ih =>
      have read := tokensOf_readLine line done text
      rw [readLines, linesTokens_cons]
      cases result : readLine line ⟨done, []⟩ text with
      | error fault =>
          rw [result] at read
          rw [Option.map_eq_none_iff.1 read.symm]
          rfl
      | ok after =>
          rw [result] at read
          obtain ⟨found, known, same⟩ := Option.map_eq_some_iff.1 read.symm
          have same : found.reverse ++ done.map Statement.tokens = after.map Statement.tokens := same
          dsimp only
          rw [ih, known, Option.bind_some, Option.map_map, List.map_reverse, ← same]
          congr 1
          funext behind
          simp

end Tokens

section Texts

variable {c : Char} {text : List Char}

/-- The tokens of the statements of a text, line by line. The carriage return in front of a line feed
is left on the line, where it is a blank. -/
def textTokens (text : List Char) : Option (List (List Token)) :=
  linesTokens (text.splitOn '\n')

theorem splitLines_splitOn (text : List Char) :
    List.Forall₂ (fun line whole => whole = line ∨ whole = line ++ ['\r']) (splitLines text)
      (text.splitOn '\n') := by
  fun_induction splitLines text with
  | case1 => exact .cons (.inl rfl) .nil
  | case2 rest ih =>
      rw [List.splitOn_cons_eq_if_modifyHead]
      exact .cons (.inl rfl) ih
  | case3 rest ih =>
      rw [List.splitOn_cons_eq_if_modifyHead, List.splitOn_cons_eq_if_modifyHead]
      exact .cons (.inr rfl) ih
  | case4 c rest inside _ ih =>
      have some := List.splitOn_ne_nil '\n' rest
      rw [List.splitOn_cons_eq_if_modifyHead, if_neg (by simpa using inside)]
      generalize splitLines rest = lines at ih
      generalize List.splitOn '\n' rest = wholes at ih some
      cases ih with
      | nil => exact absurd rfl some
      | cons first behind =>
          refine .cons ?_ behind
          obtain rfl | rfl := first
          · exact .inl rfl
          · exact .inr rfl

theorem linesTokens_splitLines (text : List Char) :
    linesTokens (splitLines text) = textTokens text := by
  have lines := splitLines_splitOn text
  rw [textTokens]
  generalize splitLines text = lines' at lines
  generalize List.splitOn '\n' text = wholes at lines
  induction lines with
  | nil => rfl
  | cons first _ ih =>
      rw [linesTokens_cons, linesTokens_cons, ih]
      obtain rfl | rfl := first
      · rfl
      · rw [lineTokens_concat (by decide)]

theorem textTokens_cons (blank : isBlank c = true) (text : List Char) :
    textTokens (c :: text) = textTokens text := by
  unfold textTokens
  rw [List.splitOn_cons_eq_if_modifyHead]
  split
  · rw [linesTokens_cons, lineTokens_nil]
    simp
  · cases List.splitOn '\n' text with
    | nil => rfl
    | cons first behind =>
        rw [List.modifyHead_cons, linesTokens_cons, linesTokens_cons, lineTokens_cons blank]

theorem splitOn_concat (inside : c ≠ '\n') (text : List Char) : ∃ front last,
    text.splitOn '\n' = front ++ [last] ∧ (text ++ [c]).splitOn '\n' = front ++ [last ++ [c]] := by
  induction text with
  | nil => exact ⟨[], [], rfl, List.splitOn_eq_singleton (by simpa using inside.symm)⟩
  | cons d text ih =>
      obtain ⟨front, last, bare, longer⟩ := ih
      rw [List.cons_append, List.splitOn_cons_eq_if_modifyHead, List.splitOn_cons_eq_if_modifyHead, bare,
        longer]
      split
      · exact ⟨[] :: front, last, rfl, rfl⟩
      · cases front with
        | nil => exact ⟨[], d :: last, rfl, rfl⟩
        | cons first front => exact ⟨(d :: first) :: front, last, rfl, rfl⟩

theorem textTokens_concat (blank : isBlank c = true) (text : List Char) :
    textTokens (text ++ [c]) = textTokens text := by
  unfold textTokens
  by_cases break' : c = '\n'
  · subst break'
    rw [List.splitOn_append_cons_self, List.splitOn_nil, linesTokens_append, linesTokens_cons,
      lineTokens_nil]
    cases linesTokens (text.splitOn '\n') with
    | none => rfl
    | some found => simp [linesTokens]
  · obtain ⟨front, last, bare, longer⟩ := splitOn_concat break' text
    rw [bare, longer, linesTokens_append, linesTokens_append, linesTokens_cons, linesTokens_cons,
      lineTokens_concat blank]

theorem textTokens_dropWhile (text : List Char) :
    textTokens (text.dropWhile isBlank) = textTokens text := by
  induction text with
  | nil => rfl
  | cons c text ih =>
      rw [List.dropWhile_cons]
      split
      · rename_i blank
        rw [ih, textTokens_cons blank]
      · rfl

theorem textTokens_trim (text : List Char) : textTokens (trim text) = textTokens text := by
  rw [trim_eq, ← textTokens_dropWhile text]
  induction text.dropWhile isBlank using List.reverseRecOn with
  | nil => rfl
  | append_singleton front c ih =>
      rw [List.rdropWhile_concat]
      split
      · rename_i blank
        rw [ih, textTokens_concat blank]
      · rfl

theorem tokensOf_statements {source : String}
    (bare : (trim source.toList).head? ≠ some '\x7b') :
    tokensOf (statements source) = textTokens source.toList := by
  have unwrapped : unwrap source.toList = .ok (trim source.toList) := by
    rw [unwrap_eq]
    unfold withoutBraces
    split
    · rename_i same
      rw [same] at bare
      exact absurd rfl bare
    · rfl
  unfold statements
  rw [unwrapped, ok_bind, tokensOf_readLines, linesTokens_splitLines, textTokens_trim]
  simp

theorem tokensOf_wrapped (source : String) :
    tokensOf (statements ("\x7b" ++ source ++ "\x7d")) = textTokens source.toList := by
  have stands : ("\x7b" ++ source ++ "\x7d").toList = '\x7b' :: (source.toList ++ ['\x7d']) := by simp
  have whole : trim ('\x7b' :: (source.toList ++ ['\x7d'])) = '\x7b' :: (source.toList ++ ['\x7d']) := by
    apply trim_of_ends
    · rintro c ⟨⟩
      decide
    · intro c last
      rw [← List.cons_append, List.getLast?_append] at last
      cases last
      decide
  have unwrapped : unwrap ('\x7b' :: (source.toList ++ ['\x7d'])) = .ok source.toList := by
    rw [unwrap_eq, whole]
    simp [withoutBraces]
  unfold statements
  rw [stands, unwrapped, ok_bind, tokensOf_readLines, linesTokens_splitLines]
  simp

end Texts

section Joined

structure IsFree (text : List Char) : Prop where
  line : '\n' ∉ text
  comment : ¬ ['/', '/'] <:+: text
  bare : (trim text).head? ≠ some '\x7b'

theorem bare_append {front back : List Char} (bare : (trim front).head? ≠ some '\x7b')
    (bareBehind : (trim back).head? ≠ some '\x7b') : (trim (front ++ back)).head? ≠ some '\x7b' := by
  rw [head_trim] at *
  rw [List.dropWhile_append]
  split
  · exact bareBehind
  · rename_i visible
    rwa [List.head?_append_of_ne_nil _ (by rwa [List.isEmpty_iff] at visible)]

variable {texts : List (List Char)}

theorem bare_joined {separator : List Char} (free : ∀ text ∈ texts, IsFree text)
    (bare : (trim separator).head? ≠ some '\x7b') :
    (trim (separator.intercalate texts)).head? ≠ some '\x7b' := by
  induction texts with
  | nil => exact nofun
  | cons text rest ih =>
      have first := (free text List.mem_cons_self).bare
      cases rest with
      | nil => rwa [List.intercalate_singleton]
      | cons next rest =>
          rw [List.intercalate_cons_cons]
          exact bare_append (bare_append first bare)
            (ih fun text member => free text (List.mem_cons_of_mem _ member))

theorem line_joined {separator : List Char} (free : ∀ text ∈ texts, IsFree text)
    (line : '\n' ∉ separator) : '\n' ∉ separator.intercalate texts := by
  induction texts with
  | nil => exact List.not_mem_nil
  | cons text rest ih =>
      have first := (free text List.mem_cons_self).line
      cases rest with
      | nil => rwa [List.intercalate_singleton]
      | cons next rest =>
          rw [List.intercalate_cons_cons]
          have behind := ih fun text member => free text (List.mem_cons_of_mem _ member)
          simp [first, line, behind]

theorem textTokens_of_line {text : List Char} (line : '\n' ∉ text) :
    textTokens text = lineTokens text := by
  rw [textTokens, List.splitOn_eq_singleton line, linesTokens_cons]
  cases lineTokens text with
  | none => rfl
  | some found => simp [linesTokens]

theorem textTokens_lines (free : ∀ text ∈ texts, IsFree text) :
    textTokens (['\n'].intercalate texts) = linesTokens texts := by
  cases texts with
  | nil => rw [List.intercalate_nil, textTokens_of_line List.not_mem_nil, lineTokens_nil, linesTokens]
  | cons text rest =>
      rw [textTokens,
        List.splitOn_intercalate '\n' (fun text member => (free text member).line) (by simp)]

theorem lineTokens_joined {found : List (List Token)} (free : ∀ text ∈ texts, IsFree text)
    (success : linesTokens texts = some found) :
    lineTokens ([' ', ';', ' '].intercalate texts) = some found := by
  induction texts generalizing found with
  | nil =>
      cases success
      exact lineTokens_nil
  | cons text rest ih =>
      rw [linesTokens_cons] at success
      obtain ⟨first, read, behind⟩ := Option.bind_eq_some_iff.1 success
      obtain ⟨more, readMore, rfl⟩ := Option.map_eq_some_iff.1 behind
      have joined := ih (fun text member => free text (List.mem_cons_of_mem _ member)) readMore
      cases rest with
      | nil =>
          cases readMore
          rw [List.intercalate_singleton, read, List.append_nil]
      | cons next rest =>
          have split : [' ', ';', ' '].intercalate (text :: next :: rest) =
              text ++ ' ' :: ';' :: (' ' :: [' ', ';', ' '].intercalate (next :: rest)) := by
            simp [List.intercalate_cons_cons]
          rw [split, lineTokens_semicolon (free text List.mem_cons_self).comment read,
            lineTokens_cons (by decide), joined]
          rfl

/-- Statements that are read with line breaks between them are the same statements with semicolons
between them, and braces around either text change nothing. Of a text that is not read, `tokensOf` only
says so: the error behind it names another line. -/
theorem separators_interchange {texts : List String} (free : ∀ text ∈ texts, IsFree text.toList) :
    (∀ found, tokensOf (statements ("\n".intercalate texts)) = some found →
      tokensOf (statements (" ; ".intercalate texts)) = some found) ∧
    ∀ separator ∈ ["\n", " ; "],
      tokensOf (statements ("\x7b" ++ separator.intercalate texts ++ "\x7d")) =
        tokensOf (statements (separator.intercalate texts)) := by
  have free : ∀ text ∈ texts.map String.toList, IsFree text := by
    simpa only [List.forall_mem_map] using free
  have bare (separator : String) (member : separator ∈ ["\n", " ; "]) :
      (trim (separator.intercalate texts).toList).head? ≠ some '\x7b' := by
    rw [String.toList_intercalate]
    apply bare_joined free
    revert separator
    decide
  refine ⟨fun found success => ?_, fun separator member => ?_⟩
  · rw [tokensOf_statements (bare _ (by simp)), String.toList_intercalate] at success ⊢
    have line : '\n' ∉ [' ', ';', ' '].intercalate (texts.map String.toList) :=
      line_joined free (by decide)
    refine (textTokens_of_line line).trans (lineTokens_joined free ?_)
    rwa [← textTokens_lines free]
  · rw [tokensOf_wrapped, tokensOf_statements (bare separator member)]

theorem separators_interchange_semicolons :
    (∀ text ∈ ["ldc \"a;b\"", "", "new A;"], IsFree text.toList) ∧
    tokensOf (statements ("\n".intercalate ["ldc \"a;b\"", "", "new A;"])) =
      some [[.word "ldc", .quoted "a;b"], [.word "new", .word "A"]] ∧
    tokensOf (statements (" ; ".intercalate ["ldc \"a;b\"", "", "new A;"])) =
      some [[.word "ldc", .quoted "a;b"], [.word "new", .word "A"]] := by
  have free : ∀ text ∈ ["ldc \"a;b\"", "", "new A;"], IsFree text.toList := by
    simp only [List.forall_mem_cons, List.not_mem_nil, IsEmpty.forall_iff, implies_true, and_true]
    refine ⟨⟨by decide, by decide, by decide⟩, ⟨by decide, by decide, by decide⟩,
      ⟨by decide, by decide, by decide⟩⟩
  have lines : tokensOf (statements
      ("\n".intercalate ["ldc \"a;b\"", "", "new A;"])) =
      some [[.word "ldc", .quoted "a;b"], [.word "new", .word "A"]] := by
    cbv
  exact ⟨free, lines, (separators_interchange free).1 _ lines⟩

end Joined

end ClassSplice.Assembler
