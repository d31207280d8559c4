import OlapCalc.Numeric.Binary64

/-!
Numeric kernels behind the aggregate functions.

Inputs are already stripped of nulls. Sums are compensated (Kahan), and every statistic that
is undefined for its input returns `none`, which callers surface as the null value.

The kernels are written once over the operations they use (`Arith`). The engine runs them on
binary64 values; read over a field where each operation is exact, the same definitions state
the algebra the kernels are meant to compute.
-/

namespace OlapCalc.Stats

/-- What the kernels need besides the four operations and the equality test: a zero, the
numbers of counts, square roots, a NaN test, an order test, a total order to sort by, and the
index a rank truncates to. -/
class Arith (α : Type) where
  zero : α
  ofNat : Nat → α
  sqrt : α → α
  isNaN : α → Bool
  le : α → α → Bool
  /-- Whether the first value comes strictly before the second in the total order. -/
  before : α → α → Bool
  /-- The index a non-negative rank truncates to. -/
  toIndex : α → Nat

open Binary64 in
/-- Binary64, as the engine computes: sorting by the IEEE total order, and ranks truncated by
the saturating conversion to an unsigned 64-bit index. -/
instance : Arith Float where
  zero := zero
  ofNat := ofNat
  sqrt := Float.sqrt
  isNaN := Float.isNaN
  le a b := a ≤ b
  before a b := totalCompare a b == .lt
  toIndex := toNat64

section Kernels

variable {α : Type} [Add α] [Sub α] [Mul α] [Div α] [BEq α] [Inhabited α] [Arith α]

open Arith

/-- A compensated running sum. -/
structure Kahan (α : Type) where
  sum : α
  c : α

/-- The empty compensated sum. -/
def Kahan.init : Kahan α := ⟨zero, zero⟩

/-- Adds one term, carrying the rounding error forward. -/
def Kahan.add (k : Kahan α) (x : α) : Kahan α :=
  let y := x - k.c
  let t := k.sum + y
  { sum := t, c := (t - k.sum) - y }

/-- The compensated sum of a list. -/
def sum (xs : List α) : α := (xs.foldl Kahan.add Kahan.init).sum

/-- The mean, `none` for an empty list. -/
def mean (xs : List α) : Option α :=
  if xs.isEmpty then none else some (sum xs / ofNat xs.length)

/-- Inserts into a list sorted by the total order, after equal elements. -/
def insertTotal (x : α) : List α → List α
  | [] => [x]
  | y :: rest => if before x y then x :: y :: rest else y :: insertTotal x rest

/-- Sorts by the total order. -/
def sortTotal (xs : List α) : List α := xs.foldl (fun acc x => insertTotal x acc) []

/-- Linear interpolation at rank `p * (n - 1)` of the ascending values. -/
def percentile (xs : List α) (p : α) : Option α :=
  if xs.isEmpty || isNaN p then none
  else
    let v := (sortTotal xs).toArray
    let last := v.size - 1
    if le p zero then some v[0]!
    else if le (ofNat 1) p then some v[last]!
    else
      let rank := p * ofNat last
      let lo := toIndex rank
      let hi := if ofNat lo == rank then lo else lo + 1
      let frac := rank - ofNat lo
      some (v[lo]! + (v[hi]! - v[lo]!) * frac)

/-- Divide by `n` or by `n - 1`. -/
inductive Dispersion where
  | population
  | sample
deriving Repr, BEq, DecidableEq

/-- The divisor for `n` values, if defined. -/
def divisor (kind : Dispersion) (n : Nat) : Option α :=
  match kind with
  | .population => if n ≥ 1 then some (ofNat n) else none
  | .sample => if n ≥ 2 then some (ofNat (n - 1)) else none

/-- The compensated sum of squared deviations from `m`. -/
def sumSqDev (xs : List α) (m : α) : α :=
  (xs.foldl (fun k x => let d := x - m; k.add (d * d)) Kahan.init).sum

/-- Variance of the values. -/
def variance (xs : List α) (kind : Dispersion) : Option α := do
  let d ← divisor kind xs.length
  let m ← mean xs
  pure (sumSqDev xs m / d)

/-- Standard deviation of the values. -/
def stdev (xs : List α) (kind : Dispersion) : Option α :=
  (variance xs kind).map Arith.sqrt

/-- Covariance of paired values (the shorter list decides the count). -/
def covariance (xs ys : List α) (kind : Dispersion) : Option α := do
  let n := min xs.length ys.length
  let d ← divisor kind n
  let xs := xs.take n
  let ys := ys.take n
  let mx ← mean xs
  let my ← mean ys
  let acc := (xs.zip ys).foldl (fun k p => k.add ((p.1 - mx) * (p.2 - my))) Kahan.init
  pure (acc.sum / d)

/-- Pearson correlation; `none` when either side has no spread. -/
def correlation (xs ys : List α) : Option α := do
  let cov ← covariance xs ys .population
  let sx ← stdev xs .population
  let sy ← stdev ys .population
  if sx == zero || sy == zero then none else pure (cov / (sx * sy))

/-- An ordinary least-squares fit of `y = slope * x + intercept`. -/
structure LinearFit (α : Type) where
  n : Nat
  slope : α
  intercept : α
  /-- Unset when the total sum of squares is zero. -/
  r2 : Option α
  /-- Residual variance `SSE / (n - 2)`; unset below three points. -/
  variance : Option α

/-- The fitted value at `x`. -/
def LinearFit.point (fit : LinearFit α) (x : α) : α := fit.slope * x + fit.intercept

/-- The least-squares line through paired values; `none` without pairs. -/
def linearRegression (xs ys : List α) : Option (LinearFit α) := do
  let n := min xs.length ys.length
  if n == 0 then none
  let xs := xs.take n
  let ys := ys.take n
  let mx ← mean xs
  let my ← mean ys
  let pairs := xs.zip ys
  -- the co-deviation and the x deviation, summed side by side
  let sums := pairs.foldl (fun (acc : Kahan α × Kahan α) p =>
    let dx := p.1 - mx
    (acc.1.add (dx * (p.2 - my)), acc.2.add (dx * dx))) (Kahan.init, Kahan.init)
  let sxx := sums.2.sum
  let slope := if sxx == zero then zero else sums.1.sum / sxx
  let intercept := my - slope * mx
  let sse := (pairs.foldl (fun k p =>
    let r := p.2 - (slope * p.1 + intercept)
    k.add (r * r)) Kahan.init).sum
  let sst := sumSqDev ys my
  pure {
    n := n
    slope := slope
    intercept := intercept
    r2 := if sst == zero then none else some (ofNat 1 - sse / sst)
    variance := if n ≥ 3 then some (sse / ofNat (n - 2)) else none
  }

end Kernels

end OlapCalc.Stats
