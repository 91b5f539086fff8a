import TransactionalMemory.Word.Binary

/-! # The shortest decimal of a binary number

The number behind a finite bit pattern is written with the fewest decimal digits that read back as
the same pattern; among decimals of that length the nearest one is taken, and the larger of two
that are equally near.

A decimal reads back exactly when it lies in the interval of reals that round to the pattern; both
ends belong to it iff the significand is even.  All of it is whole-number arithmetic: the interval
is scaled by four, so that its ends, a half or a quarter of a unit away, are whole too.
-/

namespace TransactionalMemory

/-- A positive decimal number: its digits, the first one nonzero, and the power of ten of the first
    digit. -/
structure Decimal where
  digits : Nat
  exponent : Int
  deriving DecidableEq, Repr

namespace Decimal

def width (n : Nat) : Nat := (Nat.toDigits 10 n).length

/-- The power of ten of the first digit of the positive fraction `num / den`. -/
def exponentOf (num den : Nat) : Int :=
  if den ≤ num then (width (num / den) : Int) - 1
  else -(width ((den + num - 1) / num - 1) : Int)

/-- The reals that round to one pattern, as fractions over a common denominator. -/
structure Interval where
  low : Nat
  value : Nat
  high : Nat
  denominator : Nat
  closed : Bool

def Interval.contains (I : Interval) (num den : Nat) : Bool :=
  let x := num * I.denominator
  if I.closed then I.low * den ≤ x && x ≤ I.high * den
  else I.low * den < x && x < I.high * den

/-- The reals that round to a positive finite pattern.  Below a power of two the patterns lie twice
    as dense, so there the lower end is half as far away. -/
def Interval.ofPattern (F : BinaryFormat) (bits : Nat) : Interval :=
  let (significand, exponent) := F.parts bits
  let unit := 1 <<< exponent
  let below := if significand = 1 <<< F.fractionBits && 0 < exponent then unit else 2 * unit
  let value := 4 * significand * unit
  { low := value - below
    value
    high := value + 2 * unit
    denominator := 4 * F.unitsInOne
    closed := significand % 2 = 0 }

/-- The decimal of `count` digits nearest to the interval's value, if it or its neighbour on the
    other side of the value reads back. -/
def Interval.nearest? (I : Interval) (count : Nat) : Option Decimal :=
  let top := exponentOf I.value I.denominator
  -- one step of the grid is `10 ^ step`
  let step := top - (count - 1 : Nat)
  let up := if 0 ≤ step then Nat.pow 10 step.toNat else 1
  let down := if 0 ≤ step then 1 else Nat.pow 10 (-step).toNat
  let num := I.value * down
  let den := I.denominator * up
  let floor := num / den
  let rest := num % den
  let reads := fun n => I.contains (n * up) down
  let decimal := fun n => if n = Nat.pow 10 count then (⟨1, top + 1⟩ : Decimal) else ⟨n, top⟩
  if rest = 0 then some (decimal floor)
  else match reads floor, reads (floor + 1) with
    | true, true => some (decimal (if 2 * rest < den then floor else floor + 1))
    | true, false => some (decimal floor)
    | false, true => some (decimal (floor + 1))
    | false, false => none

/-- The shortest decimal of a positive finite pattern; seventeen digits are always enough for the
    formats used here. -/
def ofPattern (F : BinaryFormat) (bits : Nat) : Decimal :=
  let I := Interval.ofPattern F bits
  ((List.range 17).findSome? fun n => I.nearest? (n + 1)).getD ⟨0, 0⟩

def significantDigits (d : Decimal) : List Char :=
  ((Nat.toDigits 10 d.digits).reverse.dropWhile (· == '0')).reverse

end Decimal

/-- How a format writes numbers: the first power of ten that is written with an exponent, and the
    last small one that is not. -/
structure NumberStyle where
  firstLarge : Int
  lastSmall : Int

/-- Numbers from `10 ^ 16` on and below `10 ^ -4` are written with an exponent. -/
def NumberStyle.standard : NumberStyle := ⟨16, -4⟩

/-- The digits of a decimal in positional notation, at least one of them after the point, or, far
    from one, with an exponent. -/
def NumberStyle.write (style : NumberStyle) (d : Decimal) : String :=
  let digits := d.significantDigits
  let text :=
    if d.exponent < style.lastSmall || style.firstLarge ≤ d.exponent then
      let fraction := digits.drop 1
      digits.take 1 ++ (if fraction.isEmpty then [] else '.' :: fraction)
        ++ 'e' :: (toString d.exponent).toList
    else if d.exponent < 0 then
      '0' :: '.' :: List.replicate (-d.exponent - 1).toNat '0' ++ digits
    else
      let places := d.exponent.toNat + 1
      let whole := digits.take places ++ List.replicate (places - digits.length) '0'
      let fraction := digits.drop places
      whole ++ '.' :: (if fraction.isEmpty then ['0'] else fraction)
  String.ofList text

def BinaryFormat.text (F : BinaryFormat) (bits : Nat) : String :=
  let sign := if F.isNegative bits then "-" else ""
  if F.isNaN bits then "NaN"
  else if F.isInfinite bits then sign ++ "inf"
  else if F.isZero bits then sign ++ "0.0"
  else sign ++ NumberStyle.standard.write (Decimal.ofPattern F (F.unsigned bits))

end TransactionalMemory
