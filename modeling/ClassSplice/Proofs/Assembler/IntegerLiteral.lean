import ClassSplice.Proofs.Assembler.Loading
import ClassSplice.Proofs.Assembler.Numeral

namespace ClassSplice.Assembler

open Code (Buffer)
open Machine (AddsInteger)
open Pool (Request)

section Decimal

variable {n : Nat} {c : Char}

theorem natOfDigits_toDigits (n : Nat) :
    FloatingPoint.Literal.natOfDigits (Nat.toDigits 10 n) = n := by
  have same := Nat.ofDigitChars_ten_toDigits (n := n)
  rw [Nat.ofDigitChars_eq_foldl] at same
  simp only [Nat.mul_comm 10] at same
  exact same

theorem isDigit_of_mem (member : c ∈ Nat.toDigits 10 n) : c.isDigit = true :=
  Nat.isDigit_of_mem_toDigits (by decide) (by decide) member

theorem numeral_toDigits (n : Nat) : Numeral 10 (Nat.toDigits 10 n) n :=
  numeral_ten_iff.2 ⟨⟨Nat.toDigits_ne_nil, List.all_eq_true.2 fun _ => isDigit_of_mem⟩,
    natOfDigits_toDigits n⟩

theorem toList_decimal (n : Int) : (toString n).toList =
    if 0 ≤ n then Nat.toDigits 10 n.toNat else '-' :: Nat.toDigits 10 (-n).toNat := by
  rw [Int.toString_eq_repr, Int.repr_eq_if]
  split
  · exact Nat.toList_repr
  · simp

theorem isInteger_decimal (n : Int) : IsInteger (toString n).toList n := by
  rw [toList_decimal]
  split
  · rename_i positive
    have integer := IsInteger.positive (.decimal (numeral_toDigits n.toNat))
    rwa [Int.toNat_of_nonneg positive] at integer
  · have integer := IsInteger.negative (.decimal (numeral_toDigits (-n).toNat))
    rwa [Int.toNat_of_nonneg (by omega), Int.neg_neg] at integer

theorem readInteger?_decimal {n : Int64} (bounded : n ≠ Int64.minValue) :
    readInteger? (toString n.toInt).toList = some n :=
  (isInteger_decimal n.toInt).readInteger? bounded

theorem getLast?_toDigits (n : Nat) : ∃ c, (Nat.toDigits 10 n).getLast? = some c ∧ c.isDigit = true :=
  ⟨_, List.getLast?_eq_some_getLast Nat.toDigits_ne_nil, isDigit_of_mem (List.getLast_mem _)⟩

theorem getLast?_decimal (n : Int) : ∃ c, (toString n).toList.getLast? = some c ∧ c.isDigit = true := by
  rw [toList_decimal]
  split
  · exact getLast?_toDigits _
  · obtain ⟨c, last, digit⟩ := getLast?_toDigits (-n).toNat
    exact ⟨c, by rw [List.getLast?_cons, last]; rfl, digit⟩

theorem isPlain_of_isDigit (digit : c.isDigit = true) : isPlain c = true := by
  simp only [Char.isDigit, Bool.and_eq_true, decide_eq_true_eq] at digit
  exact of_between (P := fun c => isPlain c = true) (by decide) digit.1 digit.2

theorem all_isPlain_toDigits (n : Nat) : (Nat.toDigits 10 n).all isPlain = true :=
  List.all_eq_true.2 fun _ member => isPlain_of_isDigit (isDigit_of_mem member)

theorem all_isPlain_decimal (n : Int) : (toString n).toList.all isPlain = true := by
  rw [toList_decimal]
  split
  · exact all_isPlain_toDigits _
  · have sign : isPlain '-' = true := by decide
    rw [List.all_cons, sign, all_isPlain_toDigits]
    rfl

end Decimal

def longSuffixes : List String :=
  ["", "L", "l"]

section Suffixes

variable {suffix : String} {suffixes word : List Char} {c : Char}

theorem isPlain_decimal (n : Int) (known : suffix ∈ longSuffixes) :
    IsPlain (toString n ++ suffix).toList where
  nonempty := by
    obtain ⟨c, last, _⟩ := getLast?_decimal n
    intro empty
    rw [String.toList_append] at empty
    rw [(List.append_eq_nil_iff.1 empty).1] at last
    cases last
  each := by
    have each : ∀ suffix ∈ longSuffixes, suffix.toList.all isPlain = true := by decide
    rw [String.toList_append, List.all_append, all_isPlain_decimal, each suffix known]
    rfl

theorem dropSuffix_of_plain (last : word.getLast? = some c) (other : c ∉ suffixes) :
    dropSuffix suffixes word = word := by
  rw [dropSuffix, last]
  simp [other]

theorem dropSuffix_concat (member : c ∈ suffixes) : dropSuffix suffixes (word ++ [c]) = word := by
  rw [dropSuffix, List.getLast?_concat]
  simp [member]

theorem dropSuffix_decimal (n : Int) (known : suffix ∈ longSuffixes) :
    dropSuffix ['L', 'l'] (toString n ++ suffix).toList = (toString n).toList := by
  rw [String.toList_append]
  simp only [longSuffixes, List.mem_cons, List.not_mem_nil, or_false] at known
  rcases known with rfl | rfl | rfl
  · obtain ⟨c, last, digit⟩ := getLast?_decimal n
    rw [String.toList_empty, List.append_nil]
    refine dropSuffix_of_plain last fun member => ?_
    simp only [List.mem_cons, List.not_mem_nil, or_false] at member
    rcases member with rfl | rfl
    · cases digit
    · cases digit
  · exact dropSuffix_concat (by decide)
  · exact dropSuffix_concat (by decide)

end Suffixes

def constantOf (word : String) : AssemblyM Pool.Index :=
  match readInteger? word.toList with
  | some n =>
    if Int32.minValue.toInt ≤ n.toInt ∧ n.toInt ≤ Int32.maxValue.toInt then
      inPool (Pool.intern (.integer n.toInt32))
    else failSyntax (.notAnInt n.toInt)
  | none =>
    match floatLiteral? word.toList with
    | some bits => inPool (Pool.intern (.float bits))
    | none => classConstant word

def wideConstantOf (word : String) : AssemblyM Pool.Index :=
  match readInteger? (dropSuffix ['L', 'l'] word.toList) with
  | some n => inPool (Pool.intern (.long n))
  | none =>
    match doubleLiteral? word.toList with
    | some bits => inPool (Pool.intern (.double bits))
    | none => failSyntax (.foundWord "long or double" word)

section Constants

variable {word : String}

theorem nextConstant_word (word : String) (start : Assembly) :
    nextConstant { start with operands := [.word word] } =
      constantOf word { start with operands := [] } :=
  rfl

theorem nextWideConstant_word (word : String) (start : Assembly) :
    nextWideConstant { start with operands := [.word word] } =
      wideConstantOf word { start with operands := [] } :=
  rfl

theorem asks_integer {n : Int32} (number : readInteger? word.toList = some n.toInt64) :
    Asks nextConstant (.word word) (.integer n) := by
  intro start
  rw [nextConstant_word, constantOf, number]
  dsimp only
  rw [Int32.toInt_toInt64, if_pos ⟨n.minValue_le_toInt, n.toInt_le⟩, Int32.toInt32_toInt64]
  rfl

theorem asks_long {n : Int64} (number : readInteger? (dropSuffix ['L', 'l'] word.toList) = some n) :
    Asks nextWideConstant (.word word) (.long n) := by
  intro start
  rw [nextWideConstant_word, wideConstantOf, number]
  rfl

end Constants

section Least

theorem toString_least : toString Int64.minValue.toInt = "-9223372036854775808" := by
  cbv

theorem readInteger?_least : readInteger? "-9223372036854775808".toList = none := by
  cbv

theorem doubleLiteral?_least :
    doubleLiteral? "-9223372036854775808".toList = some 0xC3E0000000000000 := by
  have literal : FloatingPoint.Literal.ofText? "-9223372036854775808".toList =
      some ⟨true, .number 9223372036854775808 0⟩ := by cbv
  have bits : FloatingPoint.Literal.bits .double ⟨true, .number 9223372036854775808 0⟩ =
      0xC3E0000000000000 := by decide
  have kept : dropSuffix ['d', 'D'] "-9223372036854775808".toList =
      "-9223372036854775808".toList := by decide
  have starts : "-9223372036854775808".toList.head? = some '-' := by decide
  rw [doubleLiteral?, readDouble?, kept, starts]
  dsimp only
  rw [if_pos (by decide), literal, Option.map_some, bits]
  rfl

theorem asks_least : Asks nextWideConstant (.word (toString Int64.minValue.toInt))
    (.double 0xC3E0000000000000) := by
  have whole : dropSuffix ['L', 'l'] "-9223372036854775808".toList =
      "-9223372036854775808".toList := by decide
  intro start
  rw [toString_least, nextWideConstant_word, wideConstantOf, whole, readInteger?_least,
    doubleLiteral?_least]
  rfl

theorem wideConstantOf_least {suffix : String} (member : suffix ∈ ["L", "l"]) :
    wideConstantOf (toString Int64.minValue.toInt ++ suffix) =
      failSyntax (.foundWord "long or double" (toString Int64.minValue.toInt ++ suffix)) := by
  have whole : dropSuffix ['L', 'l'] ("-9223372036854775808" ++ suffix).toList =
      "-9223372036854775808".toList := by
    revert suffix
    decide
  have noDouble : doubleLiteral? ("-9223372036854775808" ++ suffix).toList = none := by
    simp only [List.mem_cons, List.not_mem_nil, or_false] at member
    rcases member with rfl | rfl
    all_goals cbv
  rw [toString_least, wideConstantOf, whole, readInteger?_least, noDouble]

end Least

section Push

variable {start : Assembly} {pool : Pool} {word : String}

theorem yields_number {what : String} {n : Int64} {low high : Int}
    (number : readInteger? word.toList = some n) (between : low ≤ n.toInt ∧ n.toInt ≤ high) :
    Yields (nextInteger what low high) { start with operands := [.word word] } pool n.toInt
      { start with operands := [] } pool := by
  refine yields_bind.2 ⟨word, { start with operands := [] }, pool, rfl, ?_⟩
  rw [number]
  dsimp only
  rw [if_pos between]
  rfl

theorem outcome_pushInteger {line : Nat} {n : Int32}
    (number : readInteger? word.toList = some n.toInt64) :
    outcome (execute "iconst" { start with line, operands := [.word word] }) pool =
      start.changed line (outcome (start.buffer.addInteger n) pool) := by
  have same := n.toInt_toInt64
  have read : Yields (nextInteger "int constant" Int32.minValue.toInt Int32.maxValue.toInt)
      { start with line, operands := [.word word] } pool n.toInt64.toInt
      { start with line, operands := [] } pool :=
    @yields_number { start with line } pool word _ _ _ _ number
      (by rw [same]; exact ⟨n.minValue_le_toInt, n.toInt_le⟩)
  rw [same] at read
  unfold Yields at read
  show outcome (pushInteger { start with line, operands := [.word word] }) pool = _
  unfold pushInteger
  rw [outcome_step_bind, read]
  dsimp only
  rw [Int32.ofInt_toInt]
  show outcome ((inPool (start.buffer.addInteger n) >>= fun buffer =>
    modify fun state => { state with buffer }) { start with line, operands := [] }) pool = _
  rw [outcome_step_bind, outcome_inPool]
  rcases outcome (start.buffer.addInteger n) pool with ⟨error | buffer, pool'⟩
  · rfl
  · rfl

end Push

section Listings

variable {scope : Scope} {buffer : Buffer} {pool : Pool} {word : String}

theorem assemble_push {n : Int32} (plain : IsPlain word.toList)
    (number : readInteger? word.toList = some n.toInt64) (afloat : 0 ≤ buffer.depth) :
    outcome (assemble ("iconst " ++ word) scope buffer) pool =
      changed scope (outcome (buffer.addInteger n) pool) := by
  have isMnemonic : IsMnemonic "iconst" :=
    isMnemonic_of_plain ⟨by decide, by decide⟩ (by decide) (by decide)
  refine outcome_assemble_single (statements_word isMnemonic (by simp) plain)
    (outcome_statement isMnemonic (outcome_pushInteger number) ?_)
  intro after pool' added
  exact afloat.trans (Buffer.depth_addInteger added)

theorem refused_wideConstant {fault : SyntaxFault} (plain : IsPlain word.toList)
    (refused : wideConstantOf word = failSyntax fault) :
    outcome (assemble ("ldc2_w " ++ word) scope buffer) pool =
      (.error ⟨1, .badSyntax fault⟩, pool) := by
  have isMnemonic := takesConstant_ldc2.isMnemonic
  have read := nextWideConstant_word word { scope, buffer, line := 1 }
  rw [refused] at read
  rw [outcome_assemble (statements_word isMnemonic (by simp) plain), outcome_assembleAll_cons,
    statement_instruction isMnemonic, outcome_step_bind, takesConstant_ldc2.execute, outcome_step_bind,
    read]
  rfl

/-- Every number of 64 bits but the least is loaded as the long that it is, with a suffix or without one,
and every number of 32 bits is loaded or pushed as the int that it is. The least number of 64 bits is loaded
as a double, and with a suffix it is refused. -/
theorem integer_literals (reached : pool.Reached) (scope : Scope) (afloat : 0 ≤ buffer.depth) :
    (∀ (n : Int64) (suffix : String), n ≠ Int64.minValue → suffix ∈ longSuffixes →
      ∃ result, Loads buffer .wideConstant (.long n) result ∧
        outcome (assemble ("ldc2_w " ++ toString n.toInt ++ suffix) scope buffer) pool =
          changed scope result) ∧
    (∃ result, Loads buffer .wideConstant (.double 0xC3E0000000000000) result ∧
      outcome (assemble ("ldc2_w " ++ toString Int64.minValue.toInt) scope buffer) pool =
        changed scope result) ∧
    (∀ suffix ∈ ["L", "l"],
      outcome (assemble ("ldc2_w " ++ toString Int64.minValue.toInt ++ suffix) scope buffer) pool =
        (.error ⟨1, .badSyntax (.foundWord "long or double"
          (toString Int64.minValue.toInt ++ suffix))⟩, pool)) ∧
    (∀ n : Int32, ∃ result, Loads buffer .constant (.integer n) result ∧
      outcome (assemble ("ldc " ++ toString n.toInt) scope buffer) pool = changed scope result) ∧
    ∀ n : Int32, ∃ result, AddsInteger buffer n pool result ∧
      outcome (assemble ("iconst " ++ toString n.toInt) scope buffer) pool = changed scope result := by
  have wide (request : Request) : Loads buffer .wideConstant request
      (withConstant Buffer.addLdc2 request buffer pool) :=
    loads_withConstant reached fun index => ⟨_, Machine.adds_wideConstant buffer index⟩
  have narrow (request : Request) : Loads buffer .constant request
      (withConstant Buffer.addLdc request buffer pool) :=
    loads_withConstant reached fun index => ⟨_, Machine.adds_constant buffer index⟩
  have number (n : Int32) : readInteger? (toString n.toInt).toList = some n.toInt64 := by
    rw [← n.toInt_toInt64]
    exact readInteger?_decimal n.toInt64_ne_minValue
  have plain (n : Int) : IsPlain (toString n).toList := by
    have plain := isPlain_decimal n (show "" ∈ longSuffixes by decide)
    rwa [String.append_empty] at plain
  refine ⟨?_, ?_, ?_, ?_, ?_⟩
  · intro n suffix bounded known
    refine ⟨_, wide (.long n), ?_⟩
    rw [String.append_assoc]
    refine assemble_constant takesConstant_ldc2 (statements_word takesConstant_ldc2.isMnemonic (by simp)
      (isPlain_decimal _ known)) (asks_long ?_) afloat
    rw [dropSuffix_decimal _ known, readInteger?_decimal bounded]
  · exact ⟨_, wide _, assemble_constant takesConstant_ldc2
      (statements_word takesConstant_ldc2.isMnemonic (by simp) (plain _)) asks_least afloat⟩
  · intro suffix known
    rw [String.append_assoc]
    exact refused_wideConstant (isPlain_decimal _ (List.mem_cons_of_mem _ known))
      (wideConstantOf_least known)
  · exact fun n => ⟨_, narrow _, assemble_constant takesConstant_ldc
      (statements_word takesConstant_ldc.isMnemonic (by simp) (plain _)) (asks_integer (number n)) afloat⟩
  · exact fun n => ⟨_, Machine.addsInteger reached buffer n, assemble_push (plain _) (number n) afloat⟩

theorem integer_literals_ends : Pool.Reached .empty ∧ 0 ≤ (Buffer.empty 0 0).depth ∧
    (∃ result, Loads (.empty 0 0) .wideConstant (.long 9223372036854775807) result ∧
      outcome (assemble "ldc2_w 9223372036854775807L" [] (.empty 0 0)) .empty = changed [] result) ∧
    outcome (assemble "ldc2_w -9223372036854775808L" [] (.empty 0 0)) .empty =
      (.error ⟨1, .badSyntax (.foundWord "long or double" "-9223372036854775808L")⟩, .empty) ∧
    ∃ result, AddsInteger (.empty 0 0) (-5) .empty result ∧
      outcome (assemble "iconst -5" [] (.empty 0 0)) .empty = changed [] result := by
  have afloat : 0 ≤ (Buffer.empty 0 0).depth := by decide
  obtain ⟨longs, _, refused, _, pushed⟩ := integer_literals .empty [] afloat
  have most : "ldc2_w " ++ toString Int64.maxValue.toInt ++ "L" = "ldc2_w 9223372036854775807L" := by
    cbv
  have least : toString Int64.minValue.toInt ++ "L" = "-9223372036854775808L" := by cbv
  have listing : "ldc2_w " ++ "-9223372036854775808L" = "ldc2_w -9223372036854775808L" := by simp
  have five : "iconst " ++ toString (-5 : Int32).toInt = "iconst -5" := by cbv
  have long := longs Int64.maxValue "L" (by decide) (by decide)
  have refused := refused "L" (by decide)
  have pushed := pushed (-5)
  rw [String.append_assoc, least, listing] at refused
  rw [most] at long
  rw [five] at pushed
  exact ⟨.empty, afloat, long, refused, pushed⟩

end Listings

end ClassSplice.Assembler
