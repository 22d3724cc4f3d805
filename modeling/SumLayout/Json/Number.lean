import SumLayout.Json.Error

/-!
# Numbers

A number without fraction and exponent that fits in 64 bits is kept as it is. Any other number
becomes a double, by a short way that is exact for the numbers people write: as many digits as fit
in 64 bits are taken as a whole number, further ones only count as places, and the whole number is
multiplied or divided by a power of ten.

The sign has been taken off before; a minus sign in front of zero also makes a double.
-/

namespace SumLayout.Json

namespace Number

/-- The largest number of 64 bits. -/
def largest : Nat := 0xFFFFFFFFFFFFFFFF

/-- The value of a decimal digit. -/
def digitValue (c : Char) : Nat := c.toNat - '0'.toNat

/-- Take digits into a number for as long as it fits in 64 bits; what comes back is the number, and
how many digits it has taken. -/
def absorb (n : Nat) : List Char → Nat × Nat
  | [] => (n, 0)
  | c :: cs =>
    let n' := n * 10 + digitValue c
    if n' ≤ largest then
      let (m, taken) := absorb n' cs
      (m, taken + 1)
    else (n, 0)

/-- A power of ten as a double. -/
def powerOfTen (k : Nat) : Float := Float.ofScientific 1 false k

/-- Multiply a double by ten to the power of `e`, in steps that a power of ten as a double
allows. -/
def scale (x : Float) (e : Int) : Except Error Float :=
  if e.natAbs ≤ 308 then
    if 0 ≤ e then
      let y := x * powerOfTen e.natAbs
      if y.isInf then .error (.malformed .numberOutOfRange) else .ok y
    else .ok (x / powerOfTen e.natAbs)
  else if x == 0 then .ok x
  else if 0 ≤ e then .error (.malformed .numberOutOfRange)
  else scale (x / powerOfTen 308) (e + 308)
termination_by e.natAbs
decreasing_by omega

/-- The double with some digits, a power of ten and a sign. -/
def double? (negative : Bool) (digits : Nat) (e : Int) : Except Error Number :=
  (scale digits.toUInt64.toFloat e).map fun x => double (if negative then -x else x)

/-- The number with some digits and a sign. -/
def ofDigits (negative : Bool) (digits : Nat) : Number :=
  if !negative then whole digits
  else if digits = 0 ∨ 0x8000000000000000 < digits then double (-digits.toUInt64.toFloat)
  else whole (-digits)

/-- The sign of an exponent. -/
def exponentSign : List Char → Bool × List Char
  | '+' :: s => (false, s)
  | '-' :: s => (true, s)
  | s => (false, s)

/-- Read an exponent, after its letter, and finish the number. -/
def readExponent (negative : Bool) (digits : Nat) (e : Int) (s : List Char) :
    Except Error (Number × List Char) :=
  let (down, s) := exponentSign s
  let written := s.takeWhile Char.isDigit
  let rest := s.dropWhile Char.isDigit
  match s with
  | [] => .error (.ended .value)
  | _ =>
    if written.isEmpty then .error (.malformed .invalidNumber)
    else
      let n : Int := written.foldl (fun n c => n * 10 + digitValue c) 0
      (double? negative digits (if down then e - n else e + n)).map (·, rest)

/-- Read what follows the digits of a fraction, and finish the number. -/
def afterFraction (negative : Bool) (digits : Nat) (e : Int) :
    List Char → Except Error (Number × List Char)
  | 'e' :: s | 'E' :: s => readExponent negative digits e s
  | s => (double? negative digits e).map (·, s)

/-- Read a fraction, after its point, and finish the number. -/
def readFraction (negative : Bool) (digits : Nat) (e : Int) (s : List Char) :
    Except Error (Number × List Char) :=
  let written := s.takeWhile Char.isDigit
  match s with
  | [] => .error (.ended .value)
  | _ =>
    if written.isEmpty then .error (.malformed .invalidNumber)
    else
      let (digits, taken) := absorb digits written
      afterFraction negative digits (e - taken) (s.dropWhile Char.isDigit)

/-- Read what follows the whole part of a number, of which `dropped` digits did not fit. -/
def afterWhole (negative : Bool) (digits dropped : Nat) :
    List Char → Except Error (Number × List Char)
  | '.' :: s => readFraction negative digits dropped s
  | 'e' :: s | 'E' :: s => readExponent negative digits dropped s
  | s =>
    if dropped = 0 then .ok (ofDigits negative digits, s)
    else (double? negative digits dropped).map (·, s)

/-- Read a number after its sign. A zero stands alone before the point. -/
def read (negative : Bool) : List Char → Except Error (Number × List Char)
  | [] => .error (.ended .value)
  | '0' :: s =>
    if (s.head?).any Char.isDigit then .error (.malformed .invalidNumber)
    else afterWhole negative 0 0 s
  | c :: s =>
    if c.isDigit then
      let written := c :: s.takeWhile Char.isDigit
      let (digits, taken) := absorb 0 written
      afterWhole negative digits (written.length - taken) (s.dropWhile Char.isDigit)
    else .error (.malformed .invalidNumber)

end Number

end SumLayout.Json
