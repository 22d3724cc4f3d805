/-!
# The shortest decimal of a double

A finite double stands for an interval of reals: all that are rounded to it. Among the decimals in
that interval one has the fewest digits, and of several such the one nearest to the double is taken,
an even last digit breaking a tie.

The double is decoded into a natural number times a power of two, and everything after that is exact
arithmetic. For each number of digits only the two decimals next to the double on the grid of that
many digits need to be looked at: if any point of a grid lies in the interval, so does one of these.
-/

namespace SumLayout.Decimal

/-- The magnitude of a finite double and the interval that is rounded to it, all over one common
denominator. -/
structure Interval where
  value : Nat
  low : Nat
  high : Nat
  denominator : Nat
  /-- Whether the ends belong to the interval. -/
  closed : Bool
  deriving DecidableEq, Repr

/-- A decimal: `digits` times ten to the power of `exponent`. -/
structure Scaled where
  digits : Nat
  exponent : Int
  deriving DecidableEq, Repr

/-- Whether the sign of a double is negative, from its bits. -/
def isNegative (bits : Nat) : Bool := bits.testBit 63

/-- The interval of a positive finite double, from its bits. Below a power of two the gap to the
next double is half as wide as above it. -/
def Interval.ofBits (bits : Nat) : Interval :=
  let implicitBit := 0x10000000000000
  let fraction := bits % implicitBit
  let biased := bits / implicitBit % 0x800
  let mantissa := if biased = 0 then fraction else implicitBit + fraction
  let scale : Int := ((if biased = 0 then 1 else biased : Nat) : Int) - 1077
  let up := Nat.pow 2 scale.toNat
  let below := if fraction = 0 ∧ 1 < biased then 1 else 2
  { value := 4 * mantissa * up
    low := (4 * mantissa - below) * up
    high := (4 * mantissa + 2) * up
    denominator := Nat.pow 2 (-scale).toNat
    closed := mantissa % 2 = 0 }

namespace Interval

/-- Whether `n / d` lies in the interval, for `d` a multiple `m` of the denominator. -/
def contains (i : Interval) (n m : Nat) : Bool :=
  if i.closed then i.low * m ≤ n && n ≤ i.high * m else i.low * m < n && n < i.high * m

/-- The number of digits before the decimal point, zero or negative for a number below one. -/
def magnitude (i : Interval) : Int :=
  let exponents := (List.range 640).map fun (k : Nat) => (k : Int) - 325
  (exponents.find? fun e =>
    i.value * Nat.pow 10 (-e).toNat < i.denominator * Nat.pow 10 e.toNat).getD 310

/-- The decimal on the grid of tens to the power of `e` that lies in the interval and is nearest to
the value. -/
def onGrid? (i : Interval) (e : Int) : Option Scaled :=
  let grid := i.denominator * Nat.pow 10 e.toNat
  let m := Nat.pow 10 (-e).toNat
  let value := i.value * m
  let d := value / grid
  let lower := if i.contains (d * grid) m then some d else none
  let upper := if i.contains ((d + 1) * grid) m then some (d + 1) else none
  match lower, upper with
  | none, none => none
  | some n, none | none, some n => some ⟨n, e⟩
  | some _, some _ =>
    let toLower := value - d * grid
    let toUpper := (d + 1) * grid - value
    if toLower < toUpper ∨ (toLower = toUpper ∧ d % 2 = 0) then some ⟨d, e⟩
    else some ⟨d + 1, e⟩

/-- The decimal with the fewest digits in the interval. Seventeen digits always suffice. -/
def shortest (i : Interval) : Scaled :=
  let top := i.magnitude
  ((List.range 17).findSome? fun (n : Nat) => i.onGrid? (top - (n + 1))).getD ⟨0, 0⟩

end Interval

/-- Take zeros off the end of the digits. -/
def strip (d : Scaled) : Scaled :=
  if h : d.digits % 10 = 0 ∧ 0 < d.digits then strip ⟨d.digits / 10, d.exponent + 1⟩ else d
termination_by d.digits
decreasing_by exact Nat.div_lt_self h.2 (by omega)

/-- How a decimal is laid out: positional up to sixteen digits before the point and down to five
zeros at its start, and otherwise with an exponent, which always has a sign. A whole number keeps
one zero after the point. -/
def text (d : Scaled) : String :=
  let digits := Nat.toDigits 10 d.digits
  let point : Int := digits.length + d.exponent
  if 0 ≤ d.exponent ∧ point ≤ 16 then
    String.ofList (digits ++ List.replicate d.exponent.toNat '0') ++ ".0"
  else if 0 < point ∧ point ≤ 16 then
    String.ofList (digits.take point.toNat ++ '.' :: digits.drop point.toNat)
  else if -5 < point ∧ point ≤ 0 then
    String.ofList ('0' :: '.' :: List.replicate (-point).toNat '0' ++ digits)
  else
    String.ofList (digits.take 1) ++
      (if digits.length = 1 then "" else "." ++ String.ofList (digits.drop 1)) ++
      (if point < 1 then "e-" else "e+") ++ toString (point - 1).natAbs

/-- The shortest text of a finite double, from its bits. -/
def ofBits (bits : Nat) : String :=
  let magnitude := bits % 0x8000000000000000
  let body := if magnitude = 0 then "0.0" else text (strip (Interval.ofBits magnitude).shortest)
  if isNegative bits then "-" ++ body else body

/-- The shortest text of a finite double. -/
def ofFloat (x : Float) : String := ofBits x.toBits.toNat

end SumLayout.Decimal
