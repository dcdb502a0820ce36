import LispReader.Number.Basic

/-!
# Numbers as text

A number is written with the fewest decimal digits that read back to it; of several such decimals
the nearest is taken, and of two equally near ones the upper. `Number.text` lays these digits out.
-/

namespace LispReader.Number

/-- The magnitude `significand * 2 ^ exponent` of a finite number. -/
structure Binary where
  significand : Nat
  exponent : Int
  /-- The next smaller value is half as far away as the next larger one. -/
  narrowBelow : Bool

/-- The decimal `0.DIGITS * 10 ^ point`. -/
structure Decimal where
  digits : List Char
  point : Int

def exponentBits (x : Number) : Nat := x.bits.toNat / leastFull % 2048

def fractionBits (x : Number) : Nat := x.bits.toNat % leastFull

def isNegative (x : Number) : Bool := 0x8000000000000000 ≤ x.bits.toNat

/-- Meant for finite numbers. -/
def binary (x : Number) : Binary :=
  if x.exponentBits = 0 then ⟨x.fractionBits, -1074, false⟩
  else ⟨leastFull + x.fractionBits, x.exponentBits - 1075, x.fractionBits = 0 ∧ 1 < x.exponentBits⟩

namespace Binary

def num (x : Binary) : Nat := scaled x.significand 2 x.exponent

def den (x : Binary) : Nat := scaled 1 2 (-x.exponent)

/-- Compares `a * 10 ^ i` with `b * 2 ^ j`. -/
def compareScaled (a : Nat) (i : Int) (b : Nat) (j : Int) : Ordering :=
  compare (scaled (scaled a 10 i) 2 (-j)) (scaled (scaled b 2 j) 10 (-i))

/-- Does `a * 10 ^ i` round to `x`? It has to lie between the midpoints to the two neighbours of
`x`, and may be one of them if the significand is even. -/
def readsBack (x : Binary) (a : Nat) (i : Int) : Bool :=
  let below := if x.narrowBelow then 4 * x.significand - 1 else 4 * x.significand - 2
  let above := 4 * x.significand + 2
  let atEnds : Bool := x.significand % 2 = 0
  let low := compareScaled a i below (x.exponent - 2)
  let high := compareScaled a i above (x.exponent - 2)
  (low == .gt || (atEnds && low == .eq)) && (high == .lt || (atEnds && high == .eq))

/-- The number of decimal digits of `n`. -/
def width (n : Nat) : Nat := (Nat.toDigits 10 n).length

/-- The least `k` with `x < 10 ^ k`, for positive `x`. -/
def scale (x : Binary) : Int :=
  if x.den ≤ x.num then width (x.num / x.den) else 1 - width ((x.den - 1) / x.num)

/-- The decimal nearest to `x` among its two neighbours with `n` digits, of those that read back. -/
def candidate (x : Binary) (n : Nat) : Option (Nat × Int) :=
  let grid : Int := x.scale - n
  let num := scaled x.num 10 (-grid)
  let den := scaled x.den 10 grid
  let lower := num / den
  let upper := lower + 1
  match x.readsBack lower grid, x.readsBack upper grid with
  | true, true => if 2 * (num % den) < den then some (lower, grid) else some (upper, grid)
  | true, false => some (lower, grid)
  | false, true => some (upper, grid)
  | false, false => none

/-- All digits of `x`. -/
def exact (x : Binary) : Nat × Int :=
  if 0 ≤ x.exponent then (x.num, 0) else (scaled x.significand 5 (-x.exponent), x.exponent)

/-- The shortest decimal that reads back to a positive `x`. Seventeen digits suffice. -/
def shortest (x : Binary) : Decimal :=
  let (a, i) := ((List.range 17).findSome? fun n => x.candidate (n + 1)).getD x.exact
  let digits := Nat.toDigits 10 a
  ⟨(digits.reverse.dropWhile (· = '0')).reverse, digits.length + i⟩

end Binary

namespace Decimal

/-- Positional, with at least one digit on either side of the point. -/
def plain (d : Decimal) : List Char :=
  if d.point ≤ 0 then '0' :: '.' :: List.replicate (-d.point).toNat '0' ++ d.digits
  else
    let whole := d.point.toNat
    let padded := d.digits ++ List.replicate (whole - d.digits.length) '0'
    let fraction := padded.drop whole
    padded.take whole ++ '.' :: (if fraction.isEmpty then ['0'] else fraction)

/-- The leading digit, the others after a point if there are any, and the power of ten. -/
def scientific (d : Decimal) : List Char :=
  let fraction := d.digits.drop 1
  d.digits.take 1 ++ (if fraction.isEmpty then [] else '.' :: fraction) ++
    'e' :: (toString (d.point - 1)).toList

/-- From `10 ^ -4` up to `10 ^ 16` positional, otherwise scientific. -/
def layout (d : Decimal) : List Char :=
  if -4 < d.point ∧ d.point ≤ 16 then d.plain else d.scientific

end Decimal

def magnitudeText (x : Number) : String :=
  if x.exponentBits = 2047 then "inf"
  else if x.binary.significand = 0 then "0.0"
  else String.ofList x.binary.shortest.layout

def text (x : Number) : String :=
  if x.exponentBits = 2047 ∧ x.fractionBits ≠ 0 then "NaN"
  else if x.isNegative then "-" ++ x.magnitudeText
  else x.magnitudeText

end LispReader.Number
