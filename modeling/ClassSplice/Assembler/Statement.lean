import ClassSplice.Assembler.Fault
import ClassSplice.Descriptor.MethodType
import ClassSplice.Text.Blank

/-!
Splitting a listing into statements. Statements end at a line break or a semicolon, `//` starts a
comment, and braces around the whole listing do not count. A semicolon that ends a class type in a
descriptor does not end the statement.
-/

namespace ClassSplice.Assembler

open Descriptor (FieldType MethodType)

structure Statement where
  line : Nat
  tokens : List Token
  deriving DecidableEq, Repr

def unescape? : Char → Option Char
  | 'n' => some '\n'
  | 't' => some '\t'
  | 'r' => some '\r'
  | '0' => some '\x00'
  | '"' => some '"'
  | '\\' => some '\\'
  | _ => none

/-- The string up to its closing quote, and the text behind it. The characters already read are
held in reverse. -/
def readQuoted (read : List Char) : List Char → Except SyntaxFault (String × List Char)
  | [] => .error .unterminatedString
  | c :: rest =>
    if c = '"' then .ok (String.ofList read.reverse, rest)
    else if c = '\\' then
      match rest with
      | [] => .error (.badEscape ' ')
      | escaped :: rest =>
        match unescape? escaped with
        | some c => readQuoted (c :: read) rest
        | none => .error (.badEscape escaped)
    else readQuoted (c :: read) rest

theorem length_of_readQuoted {read text rest : List Char} {string : String}
    (success : readQuoted read text = .ok (string, rest)) : rest.length < text.length := by
  fun_induction readQuoted read text with
  | case1 | case3 | case5 => simp at success
  | case2 => simp_all
  | case4 | case6 =>
    rename_i ih
    have := ih success
    simp only [List.length_cons]
    omega

def startsComment : List Char → Bool
  | '/' :: '/' :: _ => true
  | _ => false

def cutComment : List Char → List Char × Bool
  | [] => ([], false)
  | c :: rest =>
    if startsComment (c :: rest) then ([], true)
    else
      let (front, cut) := cutComment rest
      (c :: front, cut)

def behindLastColon (word : List Char) : List Char :=
  (word.reverse.takeWhile (· ≠ ':')).reverse

def endsInDescriptor (word : List Char) : Bool :=
  let descriptor := behindLastColon word
  let text := String.ofList descriptor
  let hint := word.contains ':' || word.contains '/' || descriptor.head? == some '(' ||
    descriptor.head? == some '['
  hint && ((FieldType.parse text).toBool || (MethodType.parse text).toBool)

def splitTerminator (word : List Char) : List Char × Bool :=
  if word.getLast? = some ';' ∧ ¬ endsInDescriptor word then (word.dropLast, true)
  else (word, false)

structure Lexeme where
  token : Option Token
  ends : Bool
  deriving DecidableEq, Repr

def endsWord (c : Char) : Bool :=
  Text.isBlank c || c == '"'

def readWord (text : List Char) : Lexeme × List Char :=
  let (word, cut) := cutComment (text.takeWhile (!endsWord ·))
  let (word, ends) := splitTerminator word
  let token := if word.isEmpty then none else some (.word (String.ofList word))
  (⟨token, ends⟩, if cut then [] else text.dropWhile (!endsWord ·))

/-- The lexeme at the start of a text that does not start with a blank or a comment. -/
def readLexeme : List Char → Except SyntaxFault (Lexeme × List Char)
  | [] => .ok (⟨none, false⟩, [])
  | c :: text =>
    if c = '"' then
      match readQuoted [] text with
      | .error fault => .error fault
      | .ok (string, ';' :: rest) => .ok (⟨some (.quoted string), true⟩, rest)
      | .ok (string, rest) => .ok (⟨some (.quoted string), false⟩, rest)
    else if c = ';' then .ok (⟨none, true⟩, text)
    else .ok (readWord (c :: text))

theorem length_of_readWord {c : Char} (text : List Char) (starts : endsWord c = false) :
    (readWord (c :: text)).2.length ≤ text.length := by
  have dropped := (List.dropWhile_sublist (!endsWord ·) (l := text)).length_le
  simp only [readWord, List.dropWhile_cons, starts, Bool.not_false, if_true]
  split
  · simp
  · exact dropped

theorem length_of_readLexeme {text rest : List Char} {lexeme : Lexeme}
    (visible : text.head?.all (!Text.isBlank ·)) (nonempty : text ≠ [])
    (success : readLexeme text = .ok (lexeme, rest)) : rest.length < text.length := by
  cases text with
  | nil => exact absurd rfl nonempty
  | cons c text =>
    simp only [readLexeme] at success
    split at success
    · split at success
      · simp at success
      · rename_i quoted
        have := length_of_readQuoted quoted
        simp_all only [Except.ok.injEq, Prod.mk.injEq, List.length_cons]
        omega
      · rename_i quoted
        have := length_of_readQuoted quoted
        simp_all only [Except.ok.injEq, Prod.mk.injEq, List.length_cons]
        omega
    · split at success
      · simp_all
      · rename_i notQuote _
        have starts : endsWord c = false := by
          simp_all [endsWord]
        have := length_of_readWord text starts
        simp only [Except.ok.injEq] at success
        rw [success] at this
        exact Nat.lt_succ_of_le this

/-- Statements already found on a line, and the tokens of the one that is still open, both in
reverse. -/
structure OpenLine where
  done : List Statement
  tokens : List Token

def OpenLine.close (state : OpenLine) (line : Nat) : OpenLine :=
  if state.tokens.isEmpty then state
  else ⟨⟨line, state.tokens.reverse⟩ :: state.done, []⟩

def OpenLine.add (state : OpenLine) (line : Nat) (lexeme : Lexeme) : OpenLine :=
  let state := match lexeme.token with
    | some token => { state with tokens := token :: state.tokens }
    | none => state
  if lexeme.ends then state.close line else state

theorem visible_dropWhile (text : List Char) :
    (text.dropWhile Text.isBlank).head?.all (!Text.isBlank ·) := by
  cases found : (text.dropWhile Text.isBlank).head? with
  | none => rfl
  | some c =>
    have := List.head?_dropWhile_not Text.isBlank text
    simp_all

def readLine (line : Nat) (state : OpenLine) (text : List Char) :
    Except Fault (List Statement) :=
  let visible := text.dropWhile Text.isBlank
  if stop : visible = [] ∨ startsComment visible then .ok (state.close line).done
  else
    match read : readLexeme visible with
    | .error fault => .error ⟨line, .badSyntax fault⟩
    | .ok (lexeme, rest) =>
      have _shorter := length_of_readLexeme (visible_dropWhile text) (fun h => stop (.inl h)) read
      have _blanks := (List.dropWhile_sublist Text.isBlank (l := text)).length_le
      readLine line (state.add line lexeme) rest
termination_by text.length

def onFirstLine (c : Char) : List (List Char) → List (List Char)
  | [] => [[c]]
  | line :: lines => (c :: line) :: lines

/-- Split a text at its line breaks, each a line feed with or without a carriage return before
it. -/
def splitLines : List Char → List (List Char)
  | [] => [[]]
  | '\n' :: rest => [] :: splitLines rest
  | '\r' :: '\n' :: rest => [] :: splitLines rest
  | c :: rest => onFirstLine c (splitLines rest)

/-- The statements on lines that are numbered from `line` on, behind those already found, which are
held in reverse. -/
def readLines (line : Nat) (done : List Statement) : List (List Char) → Except Fault (List Statement)
  | [] => .ok done.reverse
  | text :: rest =>
    match readLine line ⟨done, []⟩ text with
    | .error fault => .error fault
    | .ok done => readLines (line + 1) done rest

def unwrap (text : List Char) : Except Fault (List Char) :=
  match Text.trim text with
  | '\x7b' :: inner =>
    if inner.getLast? = some '\x7d' then .ok inner.dropLast
    else .error ⟨1, .badSyntax .unbalancedBrace⟩
  | text => .ok text

def statements (source : String) : Except Fault (List Statement) := do
  let text ← unwrap source.toList
  readLines 1 [] (splitLines text)

end ClassSplice.Assembler
