/-!
Exact views of binary64 values.

A `Float` is read through its bit pattern into naturals, and an exact rational is rounded back
to the nearest `Float`, ties to even. The text conversions, the saturating integer casts and the
integrality tests of the engine are all built on these two directions, so they are ordinary
total functions on `Nat` and `Int`.
-/

namespace OlapCalc.Binary64

/-- A finite binary64 value: its magnitude is `significand * 2 ^ exponent`. -/
structure Finite where
  negative : Bool
  significand : Nat
  exponent : Int
deriving Repr, BEq

/-- What a bit pattern encodes. -/
inductive Decoded where
  | finite (x : Finite)
  | infinity (negative : Bool)
  | nan
deriving Repr, BEq

/-- Reads the sign bit, the 11-bit exponent field and the 52-bit fraction of `x`. -/
def decode (x : Float) : Decoded :=
  let w : Nat := x.toBits.toNat
  let negative : Bool := w / Nat.pow 2 63 % 2 == 1
  let field : Nat := w / Nat.pow 2 52 % Nat.pow 2 11
  let fraction : Nat := w % Nat.pow 2 52
  if field == 2047 then
    if fraction == 0 then .infinity negative else .nan
  else if field == 0 then .finite ⟨negative, fraction, -1074⟩
  else .finite ⟨negative, fraction + Nat.pow 2 52, (field : Int) - 1075⟩

/-- The positive infinity. -/
def infinity : Float := Float.ofBits 0x7FF0000000000000

/-- The negative infinity. -/
def negInfinity : Float := Float.ofBits 0xFFF0000000000000

/-- The quiet NaN. -/
def nan : Float := Float.ofBits 0x7FF8000000000000

/-- The positive zero. -/
def zero : Float := Float.ofBits 0

/-- The negative zero. -/
def negZero : Float := Float.ofBits 0x8000000000000000

/-- A signed zero. -/
def signedZero (negative : Bool) : Float := if negative then negZero else zero

/-- A signed infinity. -/
def signedInfinity (negative : Bool) : Float := if negative then negInfinity else infinity

/-- The word of a finite value with significand `m < 2 ^ 53` and exponent `e`, where
`m < 2 ^ 52` happens only at the subnormal exponent `-1074`. -/
def encode (negative : Bool) (m : Nat) (e : Int) : Float :=
  let sign : Nat := if negative then Nat.pow 2 63 else 0
  let body : Nat :=
    if m < Nat.pow 2 52 then m
    else (e + 1075).toNat * Nat.pow 2 52 + (m - Nat.pow 2 52)
  Float.ofBits (UInt64.ofNat (sign + body))

/-- The exponent that puts `num / den` into `[2 ^ 52, 2 ^ 53)` after scaling, clamped to the
subnormal exponent. -/
def scaleExponent (num den : Nat) : Int :=
  let e0 : Int := (Nat.log2 num : Int) - (Nat.log2 den : Int) - 52
  let fits (e : Int) : Bool :=
    if e ≥ 0 then num / (den * Nat.pow 2 e.toNat) ≥ Nat.pow 2 52
    else num * Nat.pow 2 (-e).toNat / den ≥ Nat.pow 2 52
  let e := if fits e0 then e0 else e0 - 1
  if e < -1074 then -1074 else e

/-- Rounds the rational `num / den` (with `den > 0`) to the nearest binary64 value, ties to
even, overflowing to infinity; `negative` gives the sign, also of a zero result. -/
def roundRatio (negative : Bool) (num den : Nat) : Float :=
  if num == 0 || den == 0 then signedZero negative
  else
    let e := scaleExponent num den
    let (scaledNum, scaledDen) :=
      if e ≥ 0 then (num, den * Nat.pow 2 e.toNat) else (num * Nat.pow 2 (-e).toNat, den)
    let q := scaledNum / scaledDen
    let r := scaledNum % scaledDen
    let up := 2 * r > scaledDen || (2 * r == scaledDen && q % 2 == 1)
    let m := if up then q + 1 else q
    let (m, e) := if m == Nat.pow 2 53 then (Nat.pow 2 52, e + 1) else (m, e)
    if e > 971 then signedInfinity negative else encode negative m e

/-- The number of decimal digits of `n` (one for zero). -/
def decimalLength (n : Nat) : Nat := (Nat.repr n).length

/-- `digits * 10 ^ exp10` rounded to binary64 with the given sign. Exponents far outside the
binary64 range are decided without building the huge powers. -/
def ofDecimal (negative : Bool) (digits : Nat) (exp10 : Int) : Float :=
  if digits == 0 then signedZero negative
  else
    let magnitude := (decimalLength digits : Int) + exp10
    if magnitude > 310 then signedInfinity negative
    else if magnitude < -330 then signedZero negative
    else if exp10 ≥ 0 then roundRatio negative (digits * Nat.pow 10 exp10.toNat) 1
    else roundRatio negative digits (Nat.pow 10 (-exp10).toNat)

/-- The nearest binary64 value to an integer, ties to even. -/
def ofInt (n : Int) : Float := roundRatio (n < 0) n.natAbs 1

/-- The nearest binary64 value to a natural. -/
def ofNat (n : Nat) : Float := roundRatio false n 1

/-- The exact magnitude of a finite value as a fraction `num / den`. -/
def Finite.exact (x : Finite) : Nat × Nat :=
  if x.exponent ≥ 0 then (x.significand * Nat.pow 2 x.exponent.toNat, 1)
  else (x.significand, Nat.pow 2 (-x.exponent).toNat)

/-- The magnitude of a finite value truncated toward zero. -/
def Finite.truncMagnitude (x : Finite) : Nat :=
  let (num, den) := x.exact
  num / den

/-- Whether a finite value has no fractional part. -/
def Finite.isIntegral (x : Finite) : Bool :=
  let (num, den) := x.exact
  num % den == 0

/-- The largest signed 64-bit. -/
def int64Max : Int := Int.pow 2 63 - 1

/-- The smallest signed 64-bit. -/
def int64Min : Int := -(Int.pow 2 63)

/-- Clamps an integer into the signed 64-bit range. -/
def clampInt64 (n : Int) : Int :=
  if n > int64Max then int64Max else if n < int64Min then int64Min else n

/-- Saturating conversion to a signed 64-bit integer: truncation toward zero, NaN to `0`, out-of-range values to
the nearest bound. -/
def toInt64 (x : Float) : Int :=
  match decode x with
  | .nan => 0
  | .infinity negative => if negative then int64Min else int64Max
  | .finite f =>
    let t : Int := f.truncMagnitude
    clampInt64 (if f.negative then -t else t)

/-- Saturating conversion to an unsigned 64-bit integer: truncation toward zero, NaN and
negative values to `0`. -/
def toNat64 (x : Float) : Nat :=
  match decode x with
  | .nan => 0
  | .infinity negative => if negative then 0 else Nat.pow 2 64 - 1
  | .finite f => if f.negative then 0 else min f.truncMagnitude (Nat.pow 2 64 - 1)

/-- Whether `x` is finite with no fractional part (its fractional part is zero). -/
def isIntegral (x : Float) : Bool :=
  match decode x with
  | .finite f => f.isIntegral
  | _ => false

/-- Whether `|x| < 10 ^ k` for a finite `x`. -/
def absLessPow10 (x : Float) (k : Nat) : Bool :=
  match decode x with
  | .finite f =>
    let (num, den) := f.exact
    num < Nat.pow 10 k * den
  | _ => false

/-- Whether `x` is a zero of either sign. -/
def isZero (x : Float) : Bool :=
  match decode x with
  | .finite f => f.significand == 0
  | _ => false

/-- Whether the sign bit of `x` is set. -/
def signBit (x : Float) : Bool := x.toBits.toNat / Nat.pow 2 63 % 2 == 1

/-- The total order on binary64: the bit patterns compared as
sign-magnitude integers, so `-NaN < -inf < ... < -0 < +0 < ... < inf < NaN`. -/
def totalKey (x : Float) : Int :=
  let w : Nat := x.toBits.toNat
  if w / Nat.pow 2 63 % 2 == 1 then -((w % Nat.pow 2 63 : Nat) : Int) - 1 else (w : Int)

/-- The total order of binary64 values. -/
def totalCompare (a b : Float) : Ordering := compare (totalKey a) (totalKey b)

/-- The larger operand; a NaN operand yields the other operand. -/
def fmax (a b : Float) : Float :=
  if a.isNaN then b else if b.isNaN then a else if a < b then b else a

/-- The smaller operand; a NaN operand yields the other operand. -/
def fmin (a b : Float) : Float :=
  if a.isNaN then b else if b.isNaN then a else if b < a then b else a

end OlapCalc.Binary64
