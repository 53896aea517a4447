import ClassSplice.Assembler.Number
import ClassSplice.Proofs.Except

/-!
Which words are read as integers, and as which. `IsInteger` says without the reader which integer a word
spells: digits, in front of which there may be a minus sign and, for hexadecimal ones, first of all the
mark `0x`.

The reader takes off the sign and the mark, and reads what is left by a reader of hexadecimal numbers that
knows signs of its own. So it accepts words with a sign behind the mark too (`SignedHex`), and these are
the only ones that are more than it should accept, and the only way to a magnitude that has no opposite.

Main statement: `readInteger?_words`.
-/

namespace ClassSplice.Assembler

def IsDigit (base : Nat) (c : Char) (value : Nat) : Prop :=
  value < base ∧ (c = value.digitChar ∨ c = value.digitChar.toUpper)

instance (base : Nat) (c : Char) (value : Nat) : Decidable (IsDigit base c value) :=
  inferInstanceAs (Decidable (_ ∧ _))

inductive Numeral (base : Nat) : List Char → Nat → Prop
  | one {c : Char} {value : Nat} (digit : IsDigit base c value) : Numeral base [c] value
  | more {digits : List Char} {c : Char} {high value : Nat} (front : Numeral base digits high)
      (digit : IsDigit base c value) : Numeral base (digits ++ [c]) (high * base + value)

section Digits

variable {base value n : Nat} {c : Char} {text front : List Char}

theorem hexDigit?_of_isDigit (digit : IsDigit 16 c value) : hexDigit? c = some value := by
  obtain ⟨small, same⟩ := digit
  interval_cases value
  all_goals
    rcases same with rfl | rfl
    all_goals decide

theorem of_between {P : Char → Prop} {least most : Nat}
    (each : ∀ code, least ≤ code → code ≤ most → P (Char.ofNat code)) (low : least ≤ c.toNat)
    (high : c.toNat ≤ most) : P c :=
  Char.ofNat_toNat c ▸ each c.toNat low high

theorem isDigit_digitValue (digit : c.isDigit = true) :
    IsDigit 10 c (FloatingPoint.Literal.digitValue c) := by
  simp only [Char.isDigit, Bool.and_eq_true, decide_eq_true_eq] at digit
  exact of_between (P := fun c => IsDigit 10 c (FloatingPoint.Literal.digitValue c)) (by decide)
    digit.1 digit.2

theorem isDigit_of_hexDigit? (found : hexDigit? c = some value) : IsDigit 16 c value := by
  unfold hexDigit? at found
  split at found
  · rename_i digit
    cases found
    obtain ⟨small, spelled⟩ := isDigit_digitValue digit
    exact ⟨Nat.lt_of_lt_of_le small (by decide), spelled⟩
  split at found
  · rename_i between
    cases found
    exact of_between (P := fun c => IsDigit 16 c (c.toNat - 'a'.toNat + 10)) (by decide) between.1 between.2
  split at found
  · rename_i between
    cases found
    exact of_between (P := fun c => IsDigit 16 c (c.toNat - 'A'.toNat + 10)) (by decide) between.1 between.2
  · cases found

theorem hexDigit?_eq_some : hexDigit? c = some value ↔ IsDigit 16 c value :=
  ⟨isDigit_of_hexDigit?, hexDigit?_of_isDigit⟩

theorem isDigit_ten_iff :
    IsDigit 10 c value ↔ c.isDigit = true ∧ FloatingPoint.Literal.digitValue c = value := by
  constructor
  · rintro ⟨small, same⟩
    interval_cases value
    all_goals
      rcases same with rfl | rfl
      all_goals decide
  · rintro ⟨digit, rfl⟩
    exact isDigit_digitValue digit

end Digits

section Numerals

variable {base n : Nat} {c : Char} {text front : List Char}

theorem not_numeral_nil : ¬ Numeral base [] n := by
  intro numeral
  generalize empty : ([] : List Char) = text at numeral
  cases numeral with
  | one => cases empty
  | more => simp at empty

theorem numeral_concat : Numeral base (front ++ [c]) n ↔
    front = [] ∧ IsDigit base c n ∨
      ∃ high value, Numeral base front high ∧ IsDigit base c value ∧ high * base + value = n := by
  constructor
  · intro numeral
    generalize same : front ++ [c] = text at numeral
    cases numeral with
    | one digit =>
        rw [List.append_eq_singleton_iff] at same
        simp only [List.cons.injEq, and_true, List.cons_ne_self, and_false, or_false] at same
        obtain ⟨rfl, rfl⟩ := same
        exact .inl ⟨rfl, digit⟩
    | more before digit =>
        obtain ⟨rfl, last⟩ := List.append_inj' same rfl
        cases last
        exact .inr ⟨_, _, before, digit, rfl⟩
  · rintro (⟨rfl, digit⟩ | ⟨high, value, before, digit, rfl⟩)
    · exact .one digit
    · exact .more before digit

theorem Numeral.isDigit_of_mem (numeral : Numeral base text n) (member : c ∈ text) :
    ∃ value, IsDigit base c value := by
  induction numeral with
  | one digit => exact ⟨_, List.mem_singleton.1 member ▸ digit⟩
  | more front digit ih =>
      rcases List.mem_append.1 member with earlier | last
      · exact ih earlier
      · exact ⟨_, List.mem_singleton.1 last ▸ digit⟩

theorem hexNumber?_concat : hexNumber? (front ++ [c]) =
    if front = [] then hexDigit? c
    else hexNumber? front >>= fun high => (hexDigit? c).map (high * 16 + ·) := by
  cases front with
  | nil =>
      rw [if_pos rfl]
      cases digit : hexDigit? c with
      | none => simp [hexNumber?, digit]
      | some value => simp [hexNumber?, digit]
  | cons first rest =>
      rw [if_neg (List.cons_ne_nil first rest), List.cons_append, hexNumber?, ← List.cons_append,
        List.foldlM_append, hexNumber?]
      · simp
      · exact fun empty => List.cons_ne_nil _ _ empty
      · exact fun empty => List.cons_ne_nil _ _ empty

theorem hexNumber?_eq_some : hexNumber? text = some n ↔ Numeral 16 text n := by
  induction text using List.reverseRecOn generalizing n with
  | nil => exact ⟨nofun, fun numeral => absurd numeral not_numeral_nil⟩
  | append_singleton front c ih =>
      rw [hexNumber?_concat, numeral_concat]
      split
      · rename_i empty
        subst empty
        simp [hexDigit?_eq_some, not_numeral_nil]
      · rename_i nonempty
        simp only [Option.bind_eq_bind, Option.bind_eq_some_iff, Option.map_eq_some_iff, ih,
          hexDigit?_eq_some, nonempty, false_and, false_or]
        constructor
        · rintro ⟨high, before, value, digit, same⟩
          exact ⟨high, value, before, digit, same⟩
        · rintro ⟨high, value, before, digit, same⟩
          exact ⟨high, before, value, digit, same⟩

theorem numeral_ten_iff : Numeral 10 text n ↔
    (text ≠ [] ∧ text.all Char.isDigit = true) ∧ FloatingPoint.Literal.natOfDigits text = n := by
  induction text using List.reverseRecOn generalizing n with
  | nil => simp [not_numeral_nil]
  | append_singleton front c ih =>
      rw [numeral_concat]
      simp only [ih, isDigit_ten_iff, FloatingPoint.Literal.natOfDigits, List.foldl_append,
        List.foldl_cons, List.foldl_nil, List.all_append, List.all_cons, List.all_nil, Bool.and_true,
        Bool.and_eq_true]
      by_cases empty : front = []
      · subst empty
        simp
      · simp [empty]
        grind

theorem Numeral.all_isDigit (numeral : Numeral 10 text n) : text.all Char.isDigit = true :=
  (numeral_ten_iff.1 numeral).1.2

theorem decimalNumber?_eq_some {n : Int} :
    decimalNumber? text = some n ↔ ∃ value : Nat, Numeral 10 text value ∧ n = value := by
  simp only [numeral_ten_iff, decimalNumber?]
  split
  · rename_i digits
    rw [Option.some.injEq]
    constructor
    · rintro rfl
      exact ⟨_, ⟨digits, rfl⟩, rfl⟩
    · rintro ⟨_, ⟨_, rfl⟩, rfl⟩
      rfl
  · rename_i other
    exact ⟨nofun, fun ⟨_, ⟨digits, _⟩, _⟩ => absurd digits other⟩

end Numerals

inductive Magnitude : List Char → Nat → Prop
  | decimal {text : List Char} {n : Nat} (digits : Numeral 10 text n) : Magnitude text n
  | hexadecimal {text : List Char} {n : Nat} (digits : Numeral 16 text n) :
      Magnitude ('0' :: 'x' :: text) n

/-- The integer that a word spells, with at most one minus sign in front of all else. -/
inductive IsInteger : List Char → Int → Prop
  | positive {text : List Char} {n : Nat} (magnitude : Magnitude text n) : IsInteger text n
  | negative {text : List Char} {n : Nat} (magnitude : Magnitude text n) : IsInteger ('-' :: text) (-n)

/-- Hexadecimal digits with a sign between them and their mark, and the number that they would be with the
sign in front. -/
inductive SignedHex : List Char → Int → Prop
  | plus {text : List Char} {n : Nat} (digits : Numeral 16 text n) :
      SignedHex ('0' :: 'x' :: '+' :: text) n
  | minus {text : List Char} {n : Nat} (digits : Numeral 16 text n) :
      SignedHex ('0' :: 'x' :: '-' :: text) (-n)

section Integers

variable {text word : List Char} {n : Int} {v : Int64}

theorem not_numeral_of_head {c : Char} {value : Nat} (other : hexDigit? c = none) :
    ¬ Numeral 16 (c :: text) value := by
  intro numeral
  obtain ⟨_, digit⟩ := numeral.isDigit_of_mem List.mem_cons_self
  cases other.symm.trans (hexDigit?_eq_some.2 digit)

theorem signedHexNumber?_eq_some : signedHexNumber? text = some n ↔
    (∃ value : Nat, Numeral 16 text value ∧ n = value) ∨ SignedHex ('0' :: 'x' :: text) n := by
  have noPlus : hexDigit? '+' = none := by decide
  have noMinus : hexDigit? '-' = none := by decide
  unfold signedHexNumber?
  split
  · simp only [Option.map_eq_some_iff, hexNumber?_eq_some]
    constructor
    · rintro ⟨value, numeral, rfl⟩
      exact .inr (.plus numeral)
    · rintro (⟨value, numeral, _⟩ | signed)
      · exact absurd numeral (not_numeral_of_head noPlus)
      · cases signed with
        | plus numeral => exact ⟨_, numeral, rfl⟩
  · simp only [Option.map_eq_some_iff, Option.bind_eq_bind, Option.bind_eq_some_iff, Option.pure_def,
      Option.some.injEq, hexNumber?_eq_some]
    constructor
    · rintro ⟨_, ⟨value, numeral, rfl⟩, rfl⟩
      exact .inr (.minus numeral)
    · rintro (⟨value, numeral, _⟩ | signed)
      · exact absurd numeral (not_numeral_of_head noMinus)
      · cases signed with
        | minus numeral => exact ⟨_, ⟨_, numeral, rfl⟩, rfl⟩
  · rename_i notPlus notMinus
    simp only [Option.map_eq_some_iff, hexNumber?_eq_some]
    constructor
    · rintro ⟨value, numeral, rfl⟩
      exact .inl ⟨value, numeral, rfl⟩
    · rintro (⟨value, numeral, rfl⟩ | signed)
      · exact ⟨value, numeral, rfl⟩
      · cases signed with
        | plus => exact absurd rfl (notPlus _)
        | minus => exact absurd rfl (notMinus _)

theorem unsignedNumber?_eq_some : unsignedNumber? text = some n ↔
    (∃ value : Nat, Magnitude text value ∧ n = value) ∨ SignedHex text n := by
  unfold unsignedNumber?
  split
  · rename_i text
    have marked {value : Nat} : Magnitude ('0' :: 'x' :: text) value ↔ Numeral 16 text value := by
      refine ⟨fun magnitude => ?_, .hexadecimal⟩
      cases magnitude with
      | hexadecimal numeral => exact numeral
      | decimal numeral => cases numeral.all_isDigit
    rw [signedHexNumber?_eq_some]
    simp only [marked]
  · rename_i unmarked
    rw [decimalNumber?_eq_some]
    constructor
    · rintro ⟨value, numeral, same⟩
      exact .inl ⟨value, .decimal numeral, same⟩
    · rintro (⟨value, magnitude, same⟩ | signed)
      · cases magnitude with
        | decimal numeral => exact ⟨value, numeral, same⟩
        | hexadecimal => exact absurd rfl (unmarked _)
      · cases signed with
        | plus => exact absurd rfl (unmarked _)
        | minus => exact absurd rfl (unmarked _)

theorem int64?_eq_some : int64? n = some v ↔ v.toInt = n := by
  rw [int64?, Int64.toInt_minValue, Int64.toInt_maxValue]
  split
  · rename_i fits
    rw [Option.some.injEq, ← Int64.toInt_inj, Int64.toInt_ofInt_of_le (by omega) (by omega)]
    exact eq_comm
  · rename_i other
    refine ⟨nofun, ?_⟩
    rintro rfl
    have least := v.le_toInt
    have most := v.toInt_lt
    exact absurd ⟨by omega, by omega⟩ other

theorem readInteger?_eq_some : readInteger? word = some v ↔
    (∃ text m, word = '-' :: text ∧ unsignedNumber? text = some (Int64.toInt m) ∧ v = -m) ∨
      word.head? ≠ some '-' ∧ unsignedNumber? word = some v.toInt := by
  unfold readInteger?
  split
  · rename_i text
    simp only [Option.bind_eq_bind, Option.map_eq_some_iff, Option.bind_eq_some_iff, int64?_eq_some]
    constructor
    · rintro ⟨m, ⟨_, read, rfl⟩, rfl⟩
      exact .inl ⟨text, m, rfl, read, rfl⟩
    · rintro (⟨text, m, same, read, rfl⟩ | ⟨plain, _⟩)
      · cases same
        exact ⟨m, ⟨_, read, rfl⟩, rfl⟩
      · exact absurd rfl plain
  · rename_i plain
    simp only [Option.bind_eq_bind, Option.bind_eq_some_iff, int64?_eq_some]
    have head : word.head? ≠ some '-' := by
      cases word with
      | nil => nofun
      | cons c rest =>
          intro same
          cases same
          exact plain rest rfl
    constructor
    · rintro ⟨_, read, rfl⟩
      exact .inr ⟨head, read⟩
    · rintro (⟨text, m, rfl, _⟩ | ⟨_, read⟩)
      · exact absurd rfl head
      · exact ⟨_, read, rfl⟩

theorem not_magnitude_minus {value : Nat} : ¬ Magnitude ('-' :: text) value := by
  intro magnitude
  cases magnitude with
  | decimal numeral => cases numeral.all_isDigit

theorem SignedHex.unsignedNumber?_eq (signed : SignedHex text n) : unsignedNumber? text = some n :=
  unsignedNumber?_eq_some.2 (.inr signed)

theorem SignedHex.head? (signed : SignedHex text n) : text.head? = some '0' := by
  cases signed <;> rfl

theorem SignedHex.not_magnitude {value : Nat} (signed : SignedHex text n) : ¬ Magnitude text value := by
  have noPlus : hexDigit? '+' = none := by decide
  have noMinus : hexDigit? '-' = none := by decide
  intro magnitude
  cases magnitude with
  | decimal numeral => cases signed <;> cases numeral.all_isDigit
  | hexadecimal numeral =>
      cases signed with
      | plus => exact not_numeral_of_head noPlus numeral
      | minus => exact not_numeral_of_head noMinus numeral

theorem SignedHex.not_isInteger {m : Int} (signed : SignedHex text n) :
    ¬ IsInteger text m ∧ ¬ IsInteger ('-' :: text) m := by
  constructor
  · intro integer
    cases integer with
    | positive magnitude => exact signed.not_magnitude magnitude
    | negative => cases signed.head?
  · intro integer
    cases integer with
    | positive magnitude => exact not_magnitude_minus magnitude
    | negative magnitude => exact signed.not_magnitude magnitude

theorem SignedHex.readInteger?_iff (signed : SignedHex text n) :
    readInteger? text = some v ↔ v.toInt = n := by
  rw [readInteger?_eq_some, signed.unsignedNumber?_eq, Option.some.injEq]
  constructor
  · rintro (⟨rest, m, rfl, _⟩ | ⟨_, same⟩)
    · cases signed.head?
    · exact same.symm
  · rintro same
    exact .inr ⟨by rw [signed.head?]; decide, same.symm⟩

theorem SignedHex.readInteger?_minus (signed : SignedHex text n) :
    readInteger? ('-' :: text) = some v ↔ ∃ m : Int64, m.toInt = n ∧ v = -m := by
  rw [readInteger?_eq_some]
  constructor
  · rintro (⟨rest, m, same, read, rfl⟩ | ⟨plain, _⟩)
    · cases same
      exact ⟨m, Option.some.inj (read.symm.trans signed.unsignedNumber?_eq), rfl⟩
    · exact absurd rfl plain
  · rintro ⟨m, rfl, rfl⟩
    exact .inl ⟨text, m, rfl, signed.unsignedNumber?_eq, rfl⟩

/-- Of the numbers of 64 bits only the least has no opposite. -/
theorem toInt_neg_iff : (-v).toInt = -v.toInt ↔ v ≠ Int64.minValue := by
  have least := v.le_toInt
  have most := v.toInt_lt
  rw [ne_eq, ← Int64.toInt_inj, Int64.toInt_minValue, Int64.toInt_neg, Int.bmod_def]
  omega

/-- A word has a sign between the mark of hexadecimal digits and the digits. -/
def HasInnerSign (word : List Char) : Prop :=
  ∃ text n, SignedHex text n ∧ (word = text ∨ word = '-' :: text)

theorem IsInteger.not_hasInnerSign (integer : IsInteger word n) : ¬ HasInnerSign word := by
  rintro ⟨text, _, signed, rfl | rfl⟩
  · exact signed.not_isInteger.1 integer
  · exact signed.not_isInteger.2 integer

theorem readInteger?_iff_isInteger (plain : ¬ HasInnerSign word) :
    readInteger? word = some v ↔ IsInteger word v.toInt ∧ v ≠ Int64.minValue := by
  have minimal : Int64.minValue.toInt = -2 ^ 63 := Int64.toInt_minValue
  constructor
  · intro accepted
    rcases readInteger?_eq_some.1 accepted with ⟨text, m, rfl, read, rfl⟩ | ⟨_, read⟩
    · rcases unsignedNumber?_eq_some.1 read with ⟨value, magnitude, same⟩ | signed
      · have opposite : (-m).toInt = -m.toInt := by
          refine toInt_neg_iff.2 ?_
          rintro rfl
          omega
        refine ⟨?_, ?_⟩
        · rw [opposite, same]
          exact .negative magnitude
        · rw [ne_eq, ← Int64.toInt_inj, opposite, minimal]
          have := m.toInt_lt
          omega
      · exact absurd ⟨text, _, signed, .inr rfl⟩ plain
    · rcases unsignedNumber?_eq_some.1 read with ⟨value, magnitude, same⟩ | signed
      · refine ⟨?_, ?_⟩
        · rw [same]
          exact .positive magnitude
        · rintro rfl
          omega
      · exact absurd ⟨word, _, signed, .inl rfl⟩ plain
  · rintro ⟨integer, bounded⟩
    rw [readInteger?_eq_some]
    generalize same : v.toInt = n at integer
    cases integer with
    | positive magnitude =>
        refine .inr ⟨fun head => ?_, unsignedNumber?_eq_some.2 (.inl ⟨_, magnitude, ?_⟩)⟩
        · obtain ⟨rest, rfl⟩ := List.head?_eq_some_iff.1 head
          exact not_magnitude_minus magnitude
        · rfl
    | negative magnitude =>
        have opposite := toInt_neg_iff.2 bounded
        refine .inl ⟨_, -v, rfl, unsignedNumber?_eq_some.2 (.inl ⟨_, magnitude, ?_⟩), Int64.neg_neg.symm⟩
        rw [opposite, same, Int.neg_neg]

theorem IsInteger.readInteger? (integer : IsInteger word v.toInt) (bounded : v ≠ Int64.minValue) :
    readInteger? word = some v :=
  (readInteger?_iff_isInteger integer.not_hasInnerSign).2 ⟨integer, bounded⟩

/-- What the word is read as, if anything, is the integer that it spells. -/
def ReadAsSpelled (word : List Char) : Prop :=
  ∀ v, readInteger? word = some v → IsInteger word v.toInt

def HasOpposite (word : List Char) : Prop :=
  ∀ text (m : Int64), word = '-' :: text → (unsignedNumber? text >>= int64?) = some m →
    (-m).toInt = -m.toInt

theorem readAsSpelled_iff :
    ReadAsSpelled word ↔ ¬ (HasInnerSign word ∧ (readInteger? word).isSome = true) := by
  constructor
  · rintro spelled ⟨inner, accepted⟩
    obtain ⟨v, read⟩ := Option.isSome_iff_exists.1 accepted
    exact (spelled v read).not_hasInnerSign inner
  · intro other v read
    by_cases inner : HasInnerSign word
    · exact absurd ⟨inner, Option.isSome_of_eq_some read⟩ other
    · exact ((readInteger?_iff_isInteger inner).1 read).1

theorem unsignedNumber?_least :
    unsignedNumber? text = some Int64.minValue.toInt ↔ SignedHex text Int64.minValue.toInt := by
  rw [unsignedNumber?_eq_some, or_iff_right]
  rintro ⟨value, _, least⟩
  rw [Int64.toInt_minValue] at least
  omega

theorem hasOpposite_iff :
    HasOpposite word ↔ ∀ text, word = '-' :: text → ¬ SignedHex text Int64.minValue.toInt := by
  constructor
  · rintro opposite text rfl signed
    have read : (unsignedNumber? text >>= int64?) = some Int64.minValue :=
      Option.bind_eq_some_iff.2 ⟨_, signed.unsignedNumber?_eq, int64?_eq_some.2 rfl⟩
    exact toInt_neg_iff.1 (opposite text _ rfl read) rfl
  · rintro unsigned text m rfl read
    obtain ⟨n, read, same⟩ := Option.bind_eq_some_iff.1 read
    rw [← int64?_eq_some.1 same] at read
    refine toInt_neg_iff.2 ?_
    rintro rfl
    exact unsigned text rfl (unsignedNumber?_least.1 read)

/-- A word is read as the integer that it spells, unless it has a sign behind the mark and is read all the
same; and what is read has an opposite, unless it is the least number with its sign behind the mark. Words
without a sign behind the mark are read if, and only if, they spell an integer whose magnitude has 64 bits.
Words with one are read as if it stood in front, and two minus signs cancel. -/
theorem readInteger?_words (word : List Char) :
    (ReadAsSpelled word ↔ ¬ (HasInnerSign word ∧ (readInteger? word).isSome = true)) ∧
    (HasOpposite word ↔ ∀ text, word = '-' :: text → ¬ SignedHex text Int64.minValue.toInt) ∧
    (¬ HasInnerSign word → ∀ v,
      (readInteger? word = some v ↔ IsInteger word v.toInt ∧ v ≠ Int64.minValue)) ∧
    ∀ text n, SignedHex text n →
      (word = text → ∀ v, (readInteger? word = some v ↔ v.toInt = n)) ∧
      (word = '-' :: text → ∀ v,
        (readInteger? word = some v ↔ ∃ m : Int64, m.toInt = n ∧ v = -m)) := by
  refine ⟨readAsSpelled_iff, hasOpposite_iff, fun plain v => readInteger?_iff_isInteger plain, ?_⟩
  intro text n signed
  refine ⟨?_, ?_⟩
  · rintro rfl v
    exact signed.readInteger?_iff
  · rintro rfl v
    exact signed.readInteger?_minus

theorem readInteger?_words_signed :
    readInteger? "-0x1F".toList = some (-31) ∧
    (readInteger? "0x-5".toList = some (-5) ∧ ¬ ReadAsSpelled "0x-5".toList) ∧
    readInteger? "-0x-8000000000000000".toList = some Int64.minValue ∧
    ¬ HasOpposite "-0x-8000000000000000".toList := by
  have lower : IsInteger "-0x1F".toList (-31) :=
    .negative (n := 31) (.hexadecimal (hexNumber?_eq_some.1 (by cbv)))
  have five : SignedHex "0x-5".toList (-5) := .minus (n := 5) (hexNumber?_eq_some.1 (by cbv))
  have digits : Numeral 16 "8000000000000000".toList (2 ^ 63) := hexNumber?_eq_some.1 (by cbv)
  have least : SignedHex "0x-8000000000000000".toList Int64.minValue.toInt := by
    rw [Int64.toInt_minValue]
    simpa using SignedHex.minus digits
  have spelled : "-0x-8000000000000000".toList = '-' :: "0x-8000000000000000".toList := by simp
  obtain ⟨_, _, plain, _⟩ := readInteger?_words "-0x1F".toList
  obtain ⟨astray, _, _, inner⟩ := readInteger?_words "0x-5".toList
  obtain ⟨_, overflow, _, twice⟩ := readInteger?_words "-0x-8000000000000000".toList
  have read := ((inner _ _ five).1 rfl (-5)).2 rfl
  refine ⟨(plain lower.not_hasInnerSign _).2 ⟨lower, by decide⟩, ⟨read, fun sound => ?_⟩,
    ((twice _ _ least).2 spelled _).2 ⟨Int64.minValue, rfl, rfl⟩, fun opposite => ?_⟩
  · exact astray.1 sound ⟨⟨_, _, five, .inl rfl⟩, Option.isSome_of_eq_some read⟩
  · exact overflow.1 opposite _ spelled least

end Integers

end ClassSplice.Assembler
