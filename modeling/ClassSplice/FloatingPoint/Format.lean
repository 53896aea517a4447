namespace ClassSplice.FloatingPoint

structure Format where
  fractionBits : Nat
  exponentBits : Nat

namespace Format

def single : Format := ⟨23, 8⟩

def double : Format := ⟨52, 11⟩

def leastExponent (format : Format) : Int :=
  2 - Int.pow 2 (format.exponentBits - 1) - format.fractionBits

def infinity (format : Format) : Nat :=
  (Nat.pow 2 format.exponentBits - 1) * Nat.pow 2 format.fractionBits

def notANumber (format : Format) : Nat :=
  format.infinity + Nat.pow 2 (format.fractionBits - 1)

def signBit (format : Format) : Nat :=
  Nat.pow 2 (format.exponentBits + format.fractionBits)

def withSign (format : Format) (negative : Bool) (magnitude : Nat) : Nat :=
  if negative then format.signBit + magnitude else magnitude

end Format

/-- The integer nearest to `numerator / denominator`; a half goes to the even neighbour. -/
def roundToEven (numerator denominator : Nat) : Nat :=
  let quotient := numerator / denominator
  let twice := 2 * (numerator % denominator)
  if denominator < twice ∨ (twice = denominator ∧ quotient % 2 = 1) then quotient + 1 else quotient

def scaled (n : Nat) (exponent : Int) : Nat × Nat :=
  (n * Nat.pow 2 exponent.toNat, Nat.pow 2 (-exponent).toNat)

/-- The pattern nearest to a positive ratio; a half goes to the even neighbour, and what lies
beyond the greatest finite value by half a unit or more is infinity. -/
def Format.round (format : Format) (numerator denominator : Nat) : Nat :=
  let binade : Int := numerator.log2 - denominator.log2
  let (least, unit) := scaled denominator binade
  let binade := if numerator * unit < least then binade - 1 else binade
  let exponent := max (binade - format.fractionBits) format.leastExponent
  let (up, down) := scaled 1 exponent
  let count := roundToEven (numerator * down) (denominator * up)
  min ((exponent - format.leastExponent).toNat * Nat.pow 2 format.fractionBits + count)
    format.infinity

inductive Magnitude where
  | finite (significand : Nat) (exponent : Int)
  | infinite
  | notANumber
  deriving DecidableEq, Repr

def Format.isNegative (format : Format) (bits : Nat) : Bool :=
  format.signBit ≤ bits

def Format.magnitude (format : Format) (bits : Nat) : Magnitude :=
  let field := bits % format.signBit / Nat.pow 2 format.fractionBits
  let fraction := bits % Nat.pow 2 format.fractionBits
  if field = Nat.pow 2 format.exponentBits - 1 then
    if fraction = 0 then .infinite else .notANumber
  else if field = 0 then
    .finite fraction format.leastExponent
  else
    .finite (Nat.pow 2 format.fractionBits + fraction) (format.leastExponent + (field - 1))

def Format.convert (source target : Format) (bits : Nat) : Nat :=
  target.withSign (source.isNegative bits) <|
    match source.magnitude bits with
    | .infinite => target.infinity
    | .notANumber => target.notANumber
    | .finite 0 _ => 0
    | .finite significand exponent =>
      let (numerator, denominator) := scaled significand exponent
      target.round numerator denominator

end ClassSplice.FloatingPoint
