import ClassSplice.FloatingPoint.Format

/-!
Decimal literals of floating-point numbers and the bit patterns nearest to them.

A literal is an optional minus sign in front of digits with an optional point and exponent, or of a
name of infinity or of "not a number" in any case. There is a digit before or after the point.
-/

namespace ClassSplice.FloatingPoint

inductive Unsigned where
  | number (digits : Nat) (exponent : Int)
  | infinite
  | notANumber
  deriving DecidableEq, Repr

structure Literal where
  negative : Bool
  value : Unsigned
  deriving DecidableEq, Repr

namespace Literal

def digitValue (c : Char) : Nat :=
  c.toNat - '0'.toNat

def natOfDigits (digits : List Char) : Nat :=
  digits.foldl (fun high c => high * 10 + digitValue c) 0

def spanDigits (text : List Char) : List Char × List Char :=
  text.span Char.isDigit

/-- An exponent mark with digits that fill the rest of the text; no text is exponent zero. -/
def exponent? : List Char → Option Int
  | [] => some 0
  | mark :: rest =>
    if mark = 'e' ∨ mark = 'E' then
      let (negative, rest) := match rest with
        | '-' :: rest => (true, rest)
        | '+' :: rest => (false, rest)
        | rest => (false, rest)
      match spanDigits rest with
      | (digits@(_ :: _), []) =>
        let size : Int := natOfDigits digits
        some (if negative then -size else size)
      | _ => none
    else none

def number? (text : List Char) : Option Unsigned := do
  let (whole, rest) := spanDigits text
  let (fraction, rest) := match rest with
    | '.' :: rest => spanDigits rest
    | rest => ([], rest)
  if whole.isEmpty && fraction.isEmpty then none
  else
    let exponent ← exponent? rest
    some (.number (natOfDigits (whole ++ fraction)) (exponent - fraction.length))

def unsigned? (text : List Char) : Option Unsigned :=
  match text.map Char.toLower with
  | ['i', 'n', 'f'] | ['i', 'n', 'f', 'i', 'n', 'i', 't', 'y'] => some .infinite
  | ['n', 'a', 'n'] => some .notANumber
  | _ => number? text

def ofText? : List Char → Option Literal
  | '-' :: text => (unsigned? text).map (⟨true, ·⟩)
  | text => (unsigned? text).map (⟨false, ·⟩)

/-- A power of ten at or above which a number is infinite in every format, while a number below its
inverse is zero. -/
def decimalReach : Int := 400

def bits (format : Format) (literal : Literal) : Nat :=
  format.withSign literal.negative <|
    match literal.value with
    | .infinite => format.infinity
    | .notANumber => format.notANumber
    | .number 0 _ => 0
    | .number digits exponent =>
      let magnitude := exponent + (Nat.toDigits 10 digits).length
      if decimalReach < magnitude then format.infinity
      else if magnitude < -decimalReach then 0
      else format.round (digits * Nat.pow 10 exponent.toNat) (Nat.pow 10 (-exponent).toNat)

end Literal
end ClassSplice.FloatingPoint
