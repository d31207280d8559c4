import OlapCalc.Numeric.Binary64

/-!
Reading decimal text as binary64.

Two readers live here. `parse` is the grammar of float text: an optional sign,
then digits with an optional point and exponent, or one of `inf`, `infinity`, `nan` in any
case, rounded correctly. `fromParts` is the fast path of the JSON reader: the significand is
converted to a float first and then scaled by one power of ten at a time, which is not always
the nearest value, and overflow is an error rather than an infinity.
-/

namespace OlapCalc.FloatSyntax

open Binary64

/-- Digits and exponent of a decimal numeral, before rounding. -/
structure Numeral where
  digits : Nat
  exponent : Int
deriving Repr, BEq

/-- Consumes a run of ASCII digits, accumulating them onto `acc`; returns the value, the number
of digits read and the rest. -/
def takeDigits : List Char → Nat → Nat → Nat × Nat × List Char
  | c :: rest, acc, n =>
    if c.isDigit then takeDigits rest (acc * 10 + (c.toNat - 48)) (n + 1) else (acc, n, c :: rest)
  | [], acc, n => (acc, n, [])

/-- The exponent part after `e`: an optional sign and at least one digit. -/
def exponentPart (cs : List Char) : Option (Int × List Char) :=
  let (negative, cs) :=
    match cs with
    | '-' :: rest => (true, rest)
    | '+' :: rest => (false, rest)
    | _ => (false, cs)
  match cs with
  | c :: _ =>
    if c.isDigit then
      let (value, _, rest) := takeDigits cs 0 0
      some (if negative then -(value : Int) else value, rest)
    else none
  | [] => none

/-- A decimal numeral with nothing after it: `digits [. digits] [e [sign] digits]`, with at least
one digit before the exponent. -/
def numeral (cs : List Char) : Option Numeral :=
  let (intPart, intDigits, rest) := takeDigits cs 0 0
  let (mantissa, fracDigits, rest) :=
    match rest with
    | '.' :: afterPoint => takeDigits afterPoint intPart 0
    | _ => (intPart, 0, rest)
  if intDigits + fracDigits == 0 then none
  else
    let base : Int := -(fracDigits : Int)
    match rest with
    | [] => some ⟨mantissa, base⟩
    | c :: afterE =>
      if c == 'e' || c == 'E' then
        match exponentPart afterE with
        | some (e, []) => some ⟨mantissa, base + e⟩
        | _ => none
      else none

/-- The ASCII lower case of a character list. -/
def lower (cs : List Char) : List Char := cs.map Char.toLower

/-- Reads float text (no surrounding whitespace is accepted). -/
def parse (s : String) : Option Float :=
  let cs := s.toList
  match cs with
  | [] => none
  | c :: rest =>
    let negative := c == '-'
    let body := if c == '-' || c == '+' then rest else cs
    if body.isEmpty then none
    else
      match numeral body with
      | some n => some (ofDecimal negative n.digits n.exponent)
      | none =>
        let word := lower body
        if word == "nan".toList then some nan
        else if word == "inf".toList || word == "infinity".toList then
          some (signedInfinity negative)
        else none

/-- The powers of ten `1e0 .. 1e308` as binary64 values. -/
def pow10 (k : Nat) : Float := ofDecimal false 1 k

/-- The JSON reader's float construction from a 64-bit significand and a decimal exponent;
`none` when the magnitude overflows. -/
def fromParts (positive : Bool) (significand : Nat) (exponent : Int) : Option Float :=
  let f := ofNat significand
  (scale f exponent 1000).map fun f => if positive then f else -f
where
  scale (f : Float) (exponent : Int) : Nat → Option Float
    | 0 => some f
    | fuel + 1 =>
      if exponent.natAbs ≤ 308 then
        if exponent ≥ 0 then
          let g := f * pow10 exponent.natAbs
          if g.isInf then none else some g
        else some (f / pow10 exponent.natAbs)
      else if f == zero then some f
      else if exponent ≥ 0 then none
      else scale (f / pow10 308) (exponent + 308) fuel

end OlapCalc.FloatSyntax
