import OlapCalc.Numeric.Binary64

/-!
Printing binary64 values.

`shortest` finds the fewest significant digits that read back as the same value, choosing the
nearer candidate when two of that length fit; the bounds of the rounding interval are included
exactly when the significand is even. From those digits come the plain decimal layout (never an
exponent) and the JSON layout (an exponent outside `1e-5 .. 1e16`). `fixed` prints the exact
decimal expansion rounded to a number of fraction digits, ties to even.
-/

namespace OlapCalc.FloatText

open Binary64

/-- Shortest digits of a positive value: the value reads back as `digits * 10 ^ shift`, and
`digits` has no trailing zero. -/
structure Digits where
  digits : Nat
  shift : Int
deriving Repr, BEq

/-- The position of the decimal point relative to the digit string: the value is
`0.d₁d₂… * 10 ^ point`. -/
def Digits.point (d : Digits) : Int := (decimalLength d.digits : Int) + d.shift

/-- Drops trailing zeros, moving them into the shift. -/
def normalize (digits : Nat) (shift : Int) : Digits :=
  go digits shift (decimalLength digits)
where
  go (digits : Nat) (shift : Int) : Nat → Digits
    | 0 => ⟨digits, shift⟩
    | fuel + 1 =>
      if digits != 0 && digits % 10 == 0 then go (digits / 10) (shift + 1) fuel
      else ⟨digits, shift⟩

/-- The rounding interval of a positive finite value, as in shortest-digit float printing: the value is
`mant * 2 ^ exp`, the interval is `[(mant - minus) * 2 ^ exp, (mant + plus) * 2 ^ exp]`, with
its bounds included when `inclusive`. -/
structure Interval where
  mant : Nat
  minus : Nat
  plus : Nat
  exp : Int
  inclusive : Bool

/-- The rounding interval of a positive finite value with nonzero significand. -/
def interval (x : Binary64.Finite) : Interval :=
  if x.exponent == -1074 && x.significand < Nat.pow 2 52 then
    ⟨2 * x.significand, 1, 1, -1075, true⟩
  else if x.significand == Nat.pow 2 52 then
    ⟨4 * x.significand, 1, 2, x.exponent - 2, true⟩
  else
    ⟨2 * x.significand, 1, 1, x.exponent - 1, x.significand % 2 == 0⟩

/-- `floor (log10 (num / den))` for positive `num` and `den`. -/
def decimalExponent (num den : Nat) : Int :=
  if num ≥ den then (decimalLength (num / den) : Int) - 1
  else -(decimalLength (den / num) : Int)

/-- Scales a fraction by `10 ^ -u`. -/
def scaleBy (num den : Nat) (u : Int) : Nat × Nat :=
  if u ≥ 0 then (num, den * Nat.pow 10 u.toNat) else (num * Nat.pow 10 (-u).toNat, den)

/-- The shortest digits inside the rounding interval, searching lengths `n` upward from one.
At each length the candidates are the value truncated to `n` digits and the next number of
that length; the first length where one fits wins, and when both fit the nearer one (upward on
a tie). -/
def shortestOf (iv : Interval) : Digits :=
  let scale : Nat × Nat :=
    if iv.exp ≥ 0 then (Nat.pow 2 iv.exp.toNat, 1) else (1, Nat.pow 2 (-iv.exp).toNat)
  let (sn, sd) := scale
  let v := (iv.mant * sn, sd)
  let low := ((iv.mant - iv.minus) * sn, sd)
  let high := ((iv.mant + iv.plus) * sn, sd)
  let e := decimalExponent v.1 v.2
  search v low high e iv.inclusive 1 20
where
  search (v low high : Nat × Nat) (e : Int) (inclusive : Bool) (n : Nat) : Nat → Digits
    | 0 => normalize (v.1 / v.2) 0
    | fuel + 1 =>
      let u : Int := e - n + 1
      let (a, b) := scaleBy v.1 v.2 u
      let (al, _) := scaleBy low.1 low.2 u
      let (ah, _) := scaleBy high.1 high.2 u
      let lo := a / b
      let r := a % b
      let down := if inclusive then lo * b ≥ al else lo * b > al
      let up := if inclusive then (lo + 1) * b ≤ ah else (lo + 1) * b < ah
      if r == 0 then normalize lo u
      else if up && (!down || 2 * r ≥ b) then normalize (lo + 1) u
      else if down then normalize lo u
      else search v low high e inclusive (n + 1) fuel

/-- Shortest round-trip digits of a finite value with nonzero magnitude. -/
def shortest (x : Binary64.Finite) : Digits := shortestOf (interval x)

/-- `n` copies of the digit zero. -/
def zeros (n : Nat) : String := String.ofList (List.replicate n '0')

/-- The plain decimal layout of positive digits: `0.000ddd`, `dd.ddd` or `ddd000`. -/
def Digits.plain (d : Digits) : String :=
  let s := Nat.repr d.digits
  let k := d.point
  if k ≤ 0 then "0." ++ zeros (-k).toNat ++ s
  else if k.toNat < s.length then
    String.ofList (s.toList.take k.toNat) ++ "." ++ String.ofList (s.toList.drop k.toNat)
  else s ++ zeros (k.toNat - s.length)

/-- The plain display of a float: shortest digits, never an exponent, `NaN`, `inf` and `-inf` for the
specials, and a minus sign on every negative value including `-0`. -/
def display (x : Float) : String :=
  match decode x with
  | .nan => "NaN"
  | .infinity negative => if negative then "-inf" else "inf"
  | .finite f =>
    let sign := if f.negative then "-" else ""
    if f.significand == 0 then sign ++ "0" else sign ++ (shortest f).plain

/-- The exponent suffix of the JSON layout. -/
def exponentText (k : Int) : String :=
  if k < 0 then "-" ++ Nat.repr k.natAbs else "+" ++ Nat.repr k.toNat

/-- The JSON layout of positive digits: fixed notation with a fraction for points in
`-4 .. 16`, scientific notation otherwise. -/
def Digits.json (d : Digits) : String :=
  let s := Nat.repr d.digits
  let len := s.length
  let k := d.point
  if d.shift ≥ 0 && k ≤ 16 then s ++ zeros d.shift.toNat ++ ".0"
  else if 0 < k && k ≤ 16 then
    String.ofList (s.toList.take k.toNat) ++ "." ++ String.ofList (s.toList.drop k.toNat)
  else if -5 < k && k ≤ 0 then "0." ++ zeros (-k).toNat ++ s
  else if len == 1 then s ++ "e" ++ exponentText (k - 1)
  else
    String.ofList (s.toList.take 1) ++ "." ++ String.ofList (s.toList.drop 1) ++ "e" ++
      exponentText (k - 1)

/-- A finite value as a JSON number token that always reads back as a float: `150.0`,
`0.30000000000000004`, `1e+16`, `-0.0`. Non-finite values have no JSON token. -/
def json (x : Float) : Option String :=
  match decode x with
  | .finite f =>
    let sign := if f.negative then "-" else ""
    if f.significand == 0 then some (sign ++ "0.0") else some (sign ++ (shortest f).json)
  | _ => none

/-- Inserts a decimal point before the last `frac` digits of `q`, padding with zeros so that at
least one digit stands before the point. -/
def withPoint (q : Nat) (frac : Nat) : String :=
  let s := Nat.repr q
  let s := if s.length < frac + 1 then zeros (frac + 1 - s.length) ++ s else s
  if frac == 0 then s
  else
    let cut := s.length - frac
    String.ofList (s.toList.take cut) ++ "." ++ String.ofList (s.toList.drop cut)

/-- Fixed-point text with `frac` fraction digits: the exact value rounded to `frac` fraction digits, ties to even,
keeping the sign of negative values and of `-0`. -/
def fixed (x : Float) (frac : Nat) : String :=
  match decode x with
  | .nan => "NaN"
  | .infinity negative => if negative then "-inf" else "inf"
  | .finite f =>
    let (num, den) := f.exact
    let scaled := num * Nat.pow 10 frac
    let q := scaled / den
    let r := scaled % den
    let q := if 2 * r > den || (2 * r == den && q % 2 == 1) then q + 1 else q
    (if f.negative then "-" else "") ++ withPoint q frac

end OlapCalc.FloatText
