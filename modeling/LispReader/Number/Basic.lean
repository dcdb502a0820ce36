/-!
# Numbers

A number is a binary64 value, held as its 64 bits, so that equality is decidable and every operation
is exact arithmetic on naturals. `Number.ofNumeral` reads a decimal numeral: `Number.ofQuot` rounds
once, to the nearest value and on a tie to the even pattern.
-/

namespace LispReader

structure Number where
  bits : UInt64
deriving DecidableEq

namespace Number

def infinity : Number := ⟨0x7FF0000000000000⟩

/-- `num / den` rounded to the nearest natural, a tie to the even one. -/
def roundQuot (num den : Nat) : Nat :=
  let quotient := num / den
  let twice := 2 * (num % den)
  if twice < den ∨ (twice = den ∧ quotient % 2 = 0) then quotient else quotient + 1

/-- `n * base ^ e`, or `n` for a negative exponent. -/
def scaled (n base : Nat) (e : Int) : Nat := n * Nat.pow base e.toNat

/-- The `k` with `2 ^ k ≤ num / den < 2 ^ (k + 1)`, for a positive quotient. -/
def log2Quot (num den : Nat) : Int :=
  let k : Int := num.log2 - den.log2
  if scaled num 2 (-k) < scaled den 2 k then k - 1 else k

/-- The least count of units with 53 binary digits, `2 ^ 52`; also the number of patterns for each
exponent. -/
def leastFull : Nat := 0x10000000000000

/-- The number nearest to `num / den`.

A value is a count of units `2 ^ unit`, with 53 binary digits where the exponent allows and fewer at
its lower end. As patterns are consecutive, counting them also carries a rounded value into the next
unit; those past the largest finite one are infinite. -/
def ofQuot (num den : Nat) : Number :=
  if num = 0 then ⟨0⟩
  else
    let unit := max (log2Quot num den - 52) (-1074)
    let count := roundQuot (scaled num 2 (-unit)) (scaled den 2 unit)
    let pattern := (unit + 1074).toNat * leastFull + count
    if pattern < infinity.bits.toNat then ⟨pattern.toUInt64⟩ else infinity

/-- The number that a numeral denotes: digits, or digits with a point among them. -/
def ofNumeral (numeral : List Char) : Number :=
  let whole := numeral.takeWhile (· ≠ '.')
  let fraction := (numeral.dropWhile (· ≠ '.')).drop 1
  ofQuot (Nat.ofDigitChars 10 (whole ++ fraction) 0) (scaled 1 10 fraction.length)

example : ofNumeral ['1', '.', '5'] = ⟨0x3FF8000000000000⟩ := by decide +kernel

end Number

end LispReader
