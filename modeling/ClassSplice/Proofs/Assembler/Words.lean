import ClassSplice.Proofs.Assembler.Lines

namespace ClassSplice.Assembler

open Text (isBlank trim trim_of_ends)

variable {line : Nat} {state : OpenLine} {word rest : List Char}

def lexemeOf (word : List Char) : Lexeme :=
  let (word, ends) := splitTerminator word
  ⟨if word.isEmpty then none else some (.word (String.ofList word)), ends⟩

structure IsWord (word : List Char) : Prop where
  starts : ∃ c tail, word = c :: tail ∧ c ≠ ';' ∧ c ≠ '/'
  whole : ∀ c ∈ word, endsWord c = false
  free : cutComment word = (word, false)

theorem isWord_of_all (starts : ∃ c tail, word = c :: tail ∧ c ≠ ';' ∧ c ≠ '/')
    (whole : word.all (!endsWord ·) = true) (free : cutComment word = (word, false)) : IsWord word where
  starts := starts
  whole c member := by simpa using List.all_eq_true.1 whole c member
  free := free

theorem isBlank_of_not_endsWord {c : Char} (inside : endsWord c = false) : isBlank c = false :=
  (Bool.or_eq_false_iff.1 inside).1

theorem inLine_of_visible {c : Char} (visible : isBlank c = false) : c ≠ '\n' ∧ c ≠ '\r' := by
  constructor
  all_goals
    rintro rfl
    exact absurd visible (by decide)

theorem lexemeOf_whole (nonempty : word ≠ [])
    (goesOn : ¬ (word.getLast? = some ';' ∧ ¬ endsInDescriptor word)) :
    lexemeOf word = ⟨some (.word (String.ofList word)), false⟩ := by
  have visible : word.isEmpty = false := List.isEmpty_eq_false_iff.2 nonempty
  rw [lexemeOf, splitTerminator, if_neg goesOn]
  simp only [visible, Bool.false_eq_true, if_false]

theorem readWord_append (isWord : IsWord word) (stops : rest.head?.all endsWord = true) :
    readWord (word ++ rest) = (lexemeOf word, rest) := by
  have inside : ∀ c ∈ word, (!endsWord c) = true := fun c member => by rw [isWord.whole c member]; rfl
  have outside : rest.takeWhile (!endsWord ·) = [] ∧ rest.dropWhile (!endsWord ·) = rest := by
    cases rest with
    | nil => exact ⟨rfl, rfl⟩
    | cons c rest =>
        have ends : endsWord c = true := stops
        simp [ends]
  unfold readWord
  rw [List.takeWhile_append_of_pos inside, List.dropWhile_append_of_pos inside, outside.1, outside.2,
    List.append_nil, isWord.free]
  rfl

theorem readLine_blank {c : Char} (blank : isBlank c = true) (text : List Char) :
    readLine line state (c :: text) = readLine line state text := by
  rw [readLine_eq line state (c :: text), List.dropWhile_cons, if_pos blank, ← readLine_eq]

theorem startsComment_cons {c : Char} (other : c ≠ '/') (text : List Char) :
    startsComment (c :: text) = false := by
  unfold startsComment
  split
  · rename_i same
    cases same
    exact absurd rfl other
  · rfl

theorem startsComment_slash {c : Char} (other : c ≠ '/') (text : List Char) :
    startsComment ('/' :: c :: text) = false := by
  unfold startsComment
  split
  · rename_i same
    cases same
    exact absurd rfl other
  · rfl

theorem cutComment_cons {c : Char} {text : List Char} (free : cutComment text = (text, false))
    (inside : startsComment (c :: text) = false) : cutComment (c :: text) = (c :: text, false) := by
  rw [cutComment, inside, free]
  rfl

theorem readLine_word (isWord : IsWord word) (stops : rest.head?.all endsWord = true) :
    readLine line state (word ++ rest) = readLine line (state.add line (lexemeOf word)) rest := by
  have read := readWord_append isWord stops
  obtain ⟨c, tail, rfl, noEnd, noComment⟩ := isWord.starts
  have visible : isBlank c = false ∧ c ≠ '"' := by
    simpa [endsWord] using isWord.whole c List.mem_cons_self
  have kept : (c :: tail ++ rest).dropWhile isBlank = c :: tail ++ rest := by
    simp [visible.1]
  have goesOn : ¬ (c :: tail ++ rest = [] ∨ startsComment (c :: tail ++ rest) = true) := by
    rw [List.cons_append, startsComment_cons noComment]
    simp
  have lexed : readLexeme (c :: tail ++ rest) = .ok (lexemeOf (c :: tail), rest) := by
    rw [← read, List.cons_append]
    simp [readLexeme, visible.2, noEnd]
  rw [readLine_eq, kept, if_neg goesOn, lexed]

theorem readLine_last (isWord : IsWord word) :
    readLine line state word = .ok ((state.add line (lexemeOf word)).close line).done := by
  have read : readLine line state (word ++ []) = readLine line (state.add line (lexemeOf word)) [] :=
    readLine_word isWord rfl
  rwa [List.append_nil, readLine_nil] at read

theorem splitLines_append {front line text : List Char} {lines : List (List Char)}
    (plain : ∀ c ∈ front, c ≠ '\n' ∧ c ≠ '\r') (split : splitLines text = line :: lines) :
    splitLines (front ++ text) = (front ++ line) :: lines := by
  induction front with
  | nil => exact split
  | cons c front ih =>
      obtain ⟨noFeed, noReturn⟩ := plain c List.mem_cons_self
      rw [List.cons_append, splitLines_cons noFeed fun same => absurd same noReturn,
        ih fun d member => plain d (List.mem_cons_of_mem _ member)]
      rfl

theorem splitLines_line {line : List Char} (plain : ∀ c ∈ line, c ≠ '\n' ∧ c ≠ '\r')
    (rest : List Char) : splitLines (line ++ '\n' :: rest) = line :: splitLines rest := by
  have ends : splitLines ('\n' :: rest) = [] :: splitLines rest := by rw [splitLines]
  rw [splitLines_append plain ends, List.append_nil]

theorem unwrap_of_ends {c : Char} {text : List Char} (first : isBlank c = false) (bare : c ≠ '\x7b')
    (last : ∀ d, (c :: text).getLast? = some d → isBlank d = false) :
    unwrap (c :: text) = .ok (c :: text) := by
  have whole : trim (c :: text) = c :: text :=
    trim_of_ends (fun d same => by rw [← Option.some.inj same]; exact first) last
  rw [unwrap_eq, whole]
  unfold withoutBraces
  split
  · rename_i same
    cases same
    exact absurd rfl bare
  · rfl

structure IsMnemonic (mnemonic : String) : Prop where
  isWord : IsWord mnemonic.toList
  bare : mnemonic.toList.head? ≠ some '\x7b'
  lexeme : lexemeOf mnemonic.toList = ⟨some (.word mnemonic), false⟩
  unplaced : placedLabel? mnemonic = none

section Mnemonic

variable {mnemonic : String} (isMnemonic : IsMnemonic mnemonic)
include isMnemonic

theorem IsMnemonic.visible {c : Char} (member : c ∈ mnemonic.toList) : isBlank c = false :=
  isBlank_of_not_endsWord (isMnemonic.isWord.whole c member)

theorem readLine_mnemonic (text : List Char) :
    readLine line ⟨[], []⟩ (mnemonic.toList ++ ' ' :: text) =
      readLine line ⟨[], [.word mnemonic]⟩ text := by
  have stops : (' ' :: text).head?.all endsWord = true := rfl
  rw [readLine_word isMnemonic.isWord stops, isMnemonic.lexeme, readLine_blank rfl]
  rfl

theorem unwrap_mnemonic {text : List Char}
    (last : ∃ c, text.getLast? = some c ∧ isBlank c = false) :
    unwrap (mnemonic.toList ++ text) = .ok (mnemonic.toList ++ text) := by
  have visible {c : Char} (member : c ∈ mnemonic.toList) := isMnemonic.visible member
  have bare := isMnemonic.bare
  obtain ⟨c, tail, same, _⟩ := isMnemonic.isWord.starts
  rw [same] at visible bare ⊢
  refine unwrap_of_ends (visible List.mem_cons_self) (fun brace => bare (congrArg some brace)) ?_
  intro d ends
  obtain ⟨e, ended, inside⟩ := last
  have ends : (c :: tail ++ text).getLast? = some d := ends
  rw [List.getLast?_append, ended] at ends
  cases ends
  exact inside

end Mnemonic

end ClassSplice.Assembler
