/-!
Double-precision numbers as their 64 bits, the reading of a decimal literal and the
shortest decimal that reads back the same number.
-/

namespace PlanSupervision

/-- A double-precision number, held as its 64 bits. -/
structure Double where
  bits : UInt64
deriving DecidableEq, Inhabited

namespace Double

def ofFloat (value : Float) : Double := ⟨value.toBits⟩

def toFloat (number : Double) : Float := Float.ofBits number.bits

/-- Equality of the numbers, under which both zeros are one. -/
def sameValue (left right : Double) : Bool := left.toFloat == right.toFloat

def ofInt (value : Int) : Double :=
  let size := (UInt64.ofNat value.natAbs).toFloat
  ofFloat (if value < 0 then -size else size)

def signBit : Nat := 9223372036854775808

/-- The size of the coefficient's field, and the bit that normal numbers leave out of it. -/
def fractionSize : Nat := 4503599627370496

def exponentSize : Nat := 2048

def isNegative (number : Double) : Bool := signBit ≤ number.bits.toNat

def binary (number : Double) : Nat × Int :=
  let field : Nat := number.bits.toNat / fractionSize % exponentSize
  let fraction : Nat := number.bits.toNat % fractionSize
  if field = 0 then (fraction, -1074) else (fractionSize + fraction, (field : Int) - 1075)

/-- Four times the least, the exact and the greatest size that round to a number, over a
common denominator, and whether the bounds themselves round to it. -/
structure Neighbourhood where
  least : Nat
  exact : Nat
  greatest : Nat
  denominator : Nat
  closed : Bool

def neighbourhood (number : Double) : Neighbourhood :=
  let (coefficient, power) := number.binary
  let below := if coefficient = fractionSize ∧ power > -1074 then 1 else 2
  let scale := Nat.pow 2 power.toNat
  { least := (4 * coefficient - below) * scale
    exact := 4 * coefficient * scale
    greatest := (4 * coefficient + 2) * scale
    denominator := 4 * Nat.pow 2 (-power).toNat
    closed := coefficient % 2 = 0 }

def Neighbourhood.contains (range : Neighbourhood) (digits numerator denominator : Nat) : Bool :=
  let point := digits * numerator * range.denominator
  let least := range.least * denominator
  let greatest := range.greatest * denominator
  if range.closed then least ≤ point && point ≤ greatest else least < point && point < greatest

/-- The multiple of `10 ^ exponent` nearest to the exact value among its two neighbours on
that grid, if one of them is inside the neighbourhood. -/
def Neighbourhood.onGrid (range : Neighbourhood) (exponent : Int) : Option Nat :=
  let numerator := Nat.pow 10 exponent.toNat
  let denominator := Nat.pow 10 (-exponent).toNat
  let target := range.exact * denominator
  let unit := numerator * range.denominator
  let below := target / unit
  let above := below + 1
  let takesBelow := range.contains below numerator denominator && below != 0
  let takesAbove := range.contains above numerator denominator
  let twice := 2 * (target % unit)
  let prefersBelow := twice < unit || (twice == unit && below % 2 == 0)
  if takesBelow && (prefersBelow || !takesAbove) then some below
  else if takesAbove then some above
  else none

/-- The first grid, from coarse to fine, that has a point inside the neighbourhood. -/
def Neighbourhood.search (range : Neighbourhood) : Nat → Int → Nat × Int
  | 0, exponent => (range.exact, exponent)
  | tries + 1, exponent =>
      match range.onGrid exponent with
      | some digits => (digits, exponent)
      | none => range.search tries (exponent - 1)

/-- The fewest digits, with their power of ten, that read back a finite nonzero number. -/
def shortest (number : Double) : Nat × Int :=
  let (coefficient, power) := number.binary
  let bound := ((Nat.log2 coefficient : Int) + 1 + power) * 30103 / 100000 + 1
  number.neighbourhood.search 24 bound

/-- Which decimal exponents of the leading digit are written without an exponent part. -/
structure Layout where
  leastPlain : Int
  greatestPlain : Int

/-- Numbers from `0.00001` up to sixteen digits before the point are written plainly. -/
def Layout.standard : Layout := ⟨-5, 15⟩

def Layout.write (layout : Layout) (digits : Nat) (exponent : Int) : List Char :=
  let written := Nat.toDigits 10 digits
  let leading := exponent + (written.length : Int) - 1
  if leading < layout.leastPlain ∨ layout.greatestPlain < leading then
    let sign := if leading < 0 then '-' else '+'
    let rest := match written.drop 1 with
      | [] => []
      | more => '.' :: more
    written.take 1 ++ rest ++ ['e', sign] ++ Nat.toDigits 10 leading.natAbs
  else if 0 ≤ exponent then
    written ++ List.replicate exponent.toNat '0' ++ ['.', '0']
  else if 0 ≤ leading then
    written.take (leading.toNat + 1) ++ '.' :: written.drop (leading.toNat + 1)
  else
    ['0', '.'] ++ List.replicate (-leading - 1).toNat '0' ++ written

def chars (number : Double) : List Char :=
  let size :=
    if number.binary.1 = 0 then ['0', '.', '0']
    else
      let (digits, exponent) := number.shortest
      Layout.standard.write digits exponent
  if number.isNegative then '-' :: size else size

def powerOfTen (exponent : Nat) : Float := Float.ofScientific 1 false exponent

/-- Divide by a power of ten, in parts of at most `10 ^ 308`. -/
def scaleDown (value : Float) (exponent : Nat) : Float :=
  if exponent ≤ 308 then value / powerOfTen exponent
  else if exponent ≤ 616 then value / powerOfTen 308 / powerOfTen (exponent - 308)
  else if exponent ≤ 924 then
    value / powerOfTen 308 / powerOfTen 308 / powerOfTen (exponent - 616)
  else 0.0

/-- A coefficient below `2 ^ 64` times a power of ten, unless that is beyond the largest
double. -/
def ofDecimal? (negative : Bool) (coefficient : Nat) (exponent : Int) : Option Double :=
  let value := (UInt64.ofNat coefficient).toFloat
  let signed := fun size : Float => ofFloat (if negative then -size else size)
  if coefficient = 0 then some (signed value)
  else if exponent < 0 then some (signed (scaleDown value exponent.natAbs))
  else if 308 < exponent then none
  else
    let scaled := value * powerOfTen exponent.toNat
    if scaled.isInf then none else some (signed scaled)

end Double

end PlanSupervision
