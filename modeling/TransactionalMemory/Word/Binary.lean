/-! # Binary floating point on bit patterns

A format of the binary interchange family is fixed by the widths of its fraction and its
exponent.  A pattern is a natural number below `2 ^ width`; nothing here goes through the
machine's own floating-point type, so not-a-number payloads survive and every operation can be
computed in a proof.

The one idea is `magnitude`: every finite pattern is a whole number of the format's smallest
positive value.  A sum is then a sum of integers, and `round` brings it back to a pattern.  Because
the patterns of one sign are numbered in the order of their values, a carry out of the fraction
lands in the exponent by itself.
-/

namespace TransactionalMemory

/-- Widths of the fraction and of the exponent of a binary format. -/
structure BinaryFormat where
  fractionBits : Nat
  exponentBits : Nat
  deriving DecidableEq, Repr

namespace BinaryFormat

def single : BinaryFormat := ⟨23, 8⟩

def double : BinaryFormat := ⟨52, 11⟩

variable (F : BinaryFormat)

/-- Weight of the sign bit. -/
def signWeight : Nat := 1 <<< (F.fractionBits + F.exponentBits)

/-- The pattern of positive infinity: a full exponent over an empty fraction. -/
def infinity : Nat := (1 <<< F.exponentBits - 1) <<< F.fractionBits

/-- A set top bit of the fraction marks a quiet not-a-number. -/
def quietBit : Nat := 1 <<< (F.fractionBits - 1)

def unsigned (bits : Nat) : Nat := bits % F.signWeight

def isNegative (bits : Nat) : Bool := F.signWeight ≤ bits

def isNaN (bits : Nat) : Bool := F.infinity < F.unsigned bits

def isInfinite (bits : Nat) : Bool := F.unsigned bits = F.infinity

def isZero (bits : Nat) : Bool := F.unsigned bits = 0

/-- Equality of the numbers behind two patterns: the two zeros are equal, and a not-a-number
    equals nothing, itself included. -/
def sameNumber (a b : Nat) : Bool :=
  !F.isNaN a && !F.isNaN b && (a = b || (F.isZero a && F.isZero b))

/-- Significand and binary exponent of a finite pattern, the exponent counted from the smallest
    positive value: the pattern stands for `significand * 2 ^ exponent` of these. -/
def parts (bits : Nat) : Nat × Nat :=
  let field := F.unsigned bits >>> F.fractionBits
  let fraction := bits % (1 <<< F.fractionBits)
  if field = 0 then (fraction, 0) else (fraction + (1 <<< F.fractionBits), field - 1)

/-- A finite pattern, without its sign, as a number of smallest positive values. -/
def magnitude (bits : Nat) : Nat :=
  let (significand, exponent) := F.parts bits
  significand <<< exponent

/-- A finite pattern as a signed number of smallest positive values. -/
def toInt (bits : Nat) : Int :=
  if F.isNegative bits then -(F.magnitude bits : Int) else F.magnitude bits

/-- The number of smallest positive values in one. -/
def unitsInOne : Nat := 1 <<< (1 <<< (F.exponentBits - 1) - 2 + F.fractionBits)

/-- The whole number nearest to a fraction, a half to the even neighbour. -/
def nearest (num den : Nat) : Nat :=
  let q := num / den
  let rest := 2 * (num % den)
  if den < rest || (rest = den && q % 2 = 1) then q + 1 else q

/-- The unsigned pattern nearest to a fraction, counted in smallest positive values: a half goes to
    the even neighbour, and what is too large for any finite pattern to infinity. -/
def round (num den : Nat) : Nat :=
  let exponent := (num / den).log2 - F.fractionBits
  min F.infinity ((exponent <<< F.fractionBits) + nearest num (den <<< exponent))

def ofNat (n : Nat) : Nat := F.round (n * F.unitsInOne) 1

/-- The quotient of two finite patterns without their signs, the divisor not zero. -/
def quotient (a b : Nat) : Nat := F.round (F.magnitude a * F.unitsInOne) (F.magnitude b)

/-- The quiet form of a not-a-number, its sign and payload kept. -/
def quieted (bits : Nat) : Nat := bits ||| F.quietBit

/-- The sum of two patterns.  A not-a-number among the operands is the result, the first one if
    both are; opposite infinities give the negative quiet not-a-number without payload; an exact
    zero is negative only if both operands are. -/
def sum (a b : Nat) : Nat :=
  if F.isNaN a then F.quieted a
  else if F.isNaN b then F.quieted b
  else if F.isInfinite a then
    if F.isInfinite b && a ≠ b then F.quieted (F.signWeight + F.infinity) else a
  else if F.isInfinite b then b
  else
    let total := F.toInt a + F.toInt b
    if total = 0 then
      if F.isNegative a && F.isNegative b then F.signWeight else 0
    else if total < 0 then F.signWeight + F.round total.natAbs 1
    else F.round total.natAbs 1

end BinaryFormat

end TransactionalMemory
