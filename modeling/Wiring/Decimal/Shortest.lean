/-! The decimal with the fewest digits that a binary floating-point number is the nearest one to.  A
finite double is `m * 2 ^ q`; the reals that round to it form an interval around it, and the grids
of one, two, three and more significant digits are tried in turn for a point of that interval. -/

namespace Wiring.Decimal

/-- The number `significand * 10 ^ exponent`. -/
structure Number where
  significand : Nat
  exponent : Int
deriving DecidableEq

/-- Four times the number and the two ends of its interval, as multiples of one unit. -/
structure Interval where
  low : Nat
  middle : Nat
  high : Nat
  /-- The unit is one over this. -/
  scale : Nat
  /-- Whether the two ends round to the number. -/
  closed : Bool

/-- The interval of `m * 2 ^ q`; below a power of two the numbers lie twice as close. -/
def Interval.ofBinary (m : Nat) (q : Int) (atPowerOfTwo : Bool) : Interval :=
  let grow := Nat.pow 2 (q - 2).toNat
  { low := (if atPowerOfTwo then 4 * m - 1 else 4 * m - 2) * grow
    middle := 4 * m * grow
    high := (4 * m + 2) * grow
    scale := Nat.pow 2 (2 - q).toNat
    closed := m % 2 == 0 }

def Interval.contains (i : Interval) (d : Number) : Bool :=
  let x := d.significand * Nat.pow 10 d.exponent.toNat * i.scale
  let shrink := Nat.pow 10 (-d.exponent).toNat
  if i.closed then decide (i.low * shrink ≤ x) && decide (x ≤ i.high * shrink)
  else decide (i.low * shrink < x) && decide (x < i.high * shrink)

/-- The exponent of the leading decimal digit of `num / den`, which is not zero. -/
def leadingExponent (num den : Nat) : Int :=
  if den ≤ num then ((Nat.toDigits 10 (num / den)).length : Int) - 1
  else - ((Nat.toDigits 10 ((den - 1) / num)).length : Int)

/-- The point nearest to the number on the grid of `10 ^ exponent`, if it rounds to the number. -/
def Interval.onGrid? (i : Interval) (exponent : Int) : Option Number :=
  let num := i.middle * Nat.pow 10 (-exponent).toNat
  let den := i.scale * Nat.pow 10 exponent.toNat
  let below := num / den
  let twice := 2 * (num % den)
  let nearest := if twice < den || (twice == den && below % 2 == 0) then below else below + 1
  let other := if nearest == below then below + 1 else below
  if i.contains ⟨nearest, exponent⟩ then some ⟨nearest, exponent⟩
  else if i.contains ⟨other, exponent⟩ then some ⟨other, exponent⟩
  else none

/-- The exact value for a number whose interval has no point with at most seventeen digits. -/
def Interval.exact (i : Interval) : Number :=
  if i.scale == 1 then ⟨i.middle, 0⟩
  else
    let places := Nat.log2 i.scale
    ⟨i.middle * Nat.pow 5 places, -places⟩

def Interval.shortest (i : Interval) : Number :=
  let top := leadingExponent i.middle i.scale
  ((List.range 17).findSome? fun (n : Nat) => i.onGrid? (top - n)).getD i.exact

/-! ### Doubles -/

/-- The fewest digits that read back as the absolute value of a finite double. -/
def ofFloat (x : Float) : Number :=
  let bits : Nat := x.toBits.toNat
  let e : Nat := bits / Nat.pow 2 52 % Nat.pow 2 11
  let f : Nat := bits % Nat.pow 2 52
  if e == 0 && f == 0 then ⟨0, 0⟩
  else if e == 0 then (Interval.ofBinary f (-1074) false).shortest
  else (Interval.ofBinary (Nat.pow 2 52 + f) (Int.ofNat e - 1075) (f == 0 && e > 1)).shortest

/-- The digits of a decimal, without zeros at their end, and the exponent of the first. -/
def Number.scientific (d : Number) : List Char × Int :=
  let all := Nat.toDigits 10 d.significand
  let digits := (all.reverse.dropWhile (· == '0')).reverse
  if digits.isEmpty then (['0'], 0) else (digits, d.exponent + all.length - 1)

def exponentText (e : Int) : List Char :=
  let digits := Nat.toDigits 10 e.natAbs
  (if e < 0 then '-' else '+') :: (if digits.length < 2 then '0' :: digits else digits)

/-- Digits and a point, which always has a digit on both sides, for a leading exponent from -5 to
15, and scientific form beyond. -/
def layout (digits : List Char) (e : Int) : List Char :=
  if 0 ≤ e && e ≤ 15 then
    let whole := digits.take (e.toNat + 1)
    let fraction := digits.drop (e.toNat + 1)
    whole ++ List.replicate (e.toNat + 1 - whole.length) '0' ++ ['.'] ++
      (if fraction.isEmpty then ['0'] else fraction)
  else if -5 ≤ e && e < 0 then
    ['0', '.'] ++ List.replicate ((-e).toNat - 1) '0' ++ digits
  else
    digits.take 1 ++ (if digits.length > 1 then '.' :: digits.drop 1 else []) ++ ['e'] ++
      exponentText e

def text (x : Float) : String :=
  let (digits, e) := (ofFloat x).scientific
  let body := layout digits e
  String.ofList (if x.toBits.toNat / Nat.pow 2 63 == 1 then '-' :: body else body)

end Wiring.Decimal
