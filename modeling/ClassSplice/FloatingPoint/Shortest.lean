import ClassSplice.FloatingPoint.Format

namespace ClassSplice.FloatingPoint

/-- A positive ratio with the interval of ratios that round to it, over one denominator. -/
structure RoundingInterval where
  low : Nat
  value : Nat
  high : Nat
  denominator : Nat
  closed : Bool

/-- The interval around `significand * 2 ^ exponent`: half a unit to each side, and half of that
below the first value of a binade. -/
def Format.interval (format : Format) (significand : Nat) (exponent : Int) : RoundingInterval :=
  let (up, down) := scaled 1 (exponent - 2)
  let below :=
    if significand = Nat.pow 2 format.fractionBits ∧ format.leastExponent < exponent then 1 else 2
  { low := (4 * significand - below) * up
    value := 4 * significand * up
    high := (4 * significand + 2) * up
    denominator := down
    closed := significand % 2 = 0 }

namespace RoundingInterval

def contains (interval : RoundingInterval) (count numerator denominator : Nat) : Bool :=
  let point := count * numerator * interval.denominator
  if interval.closed then
    interval.low * denominator ≤ point && point ≤ interval.high * denominator
  else
    interval.low * denominator < point && point < interval.high * denominator

/-- The multiple of `10 ^ power` in the interval that is nearest to the value, the greater of two
that are equally near. -/
def multiple? (interval : RoundingInterval) (power : Int) : Option Nat :=
  let numerator := Nat.pow 10 power.toNat
  let denominator := Nat.pow 10 (-power).toNat
  let step := numerator * interval.denominator
  let below := interval.value * denominator / step
  let rest := interval.value * denominator % step
  let lowFits := interval.contains below numerator denominator
  let highFits := interval.contains (below + 1) numerator denominator
  if lowFits && (!highFits || 2 * rest < step) then some below
  else if highFits then some (below + 1)
  else none

/-- The coarsest of the next `steps` grids, from `10 ^ power` down, that meets the interval. -/
def search (interval : RoundingInterval) (power : Int) : Nat → Nat × Int
  | 0 => (interval.value / interval.denominator, 0)
  | steps + 1 =>
    match interval.multiple? power with
    | some count => (count, power)
    | none => interval.search (power - 1) steps

end RoundingInterval

def decimalOrder (numerator denominator : Nat) : Int :=
  if denominator ≤ numerator then
    (Nat.toDigits 10 (numerator / denominator)).length - 1
  else
    -(Nat.toDigits 10 ((denominator - 1) / numerator)).length

/-- Digits and a power of ten that give the shortest decimal which reads back to the value. -/
def Format.shortest (format : Format) (significand : Nat) (exponent : Int) : Nat × Int :=
  let interval := format.interval significand exponent
  interval.search (decimalOrder interval.value interval.denominator + 1) (format.fractionBits + 3)

/-- How digits are laid out: values from `10 ^ positionalFrom` up to but excluding
`10 ^ positionalBelow` are written with a point, all others with an exponent. -/
structure Layout where
  positionalFrom : Int
  positionalBelow : Int

/-- Lay out the number `0.d₁d₂… * 10 ^ point` of the given digits. -/
def Layout.render (layout : Layout) (digits : List Char) (point : Int) : String :=
  if layout.positionalFrom < point ∧ point ≤ layout.positionalBelow then
    if point ≤ 0 then
      "0." ++ String.ofList (List.replicate (-point).toNat '0' ++ digits)
    else
      let whole := digits.take point.toNat
      let fraction := digits.drop point.toNat
      String.ofList (whole ++ List.replicate (point.toNat - whole.length) '0') ++ "." ++
        (if fraction.isEmpty then "0" else String.ofList fraction)
  else
    let tail := digits.drop 1
    String.ofList (digits.take 1) ++ (if tail.isEmpty then "" else "." ++ String.ofList tail) ++
      s!"e{point - 1}"

/-- The text of a bit pattern: the shortest digits that read back to it. -/
def Format.render (format : Format) (layout : Layout) (bits : Nat) : String :=
  let sign := if format.isNegative bits then "-" else ""
  match format.magnitude bits with
  | .notANumber => "NaN"
  | .infinite => sign ++ "inf"
  | .finite 0 _ => sign ++ "0.0"
  | .finite significand exponent =>
    let (digits, power) := format.shortest significand exponent
    let all := Nat.toDigits 10 digits
    let kept := (all.reverse.dropWhile (· == '0')).reverse
    sign ++ layout.render kept (power + all.length)

end ClassSplice.FloatingPoint
