import Mathlib
import OlapCalc.Numeric.Stats

/-!
The statistical kernels read over the reals.

Over the reals every operation is exact, so a compensated sum carries no error and is the plain
sum (`sum_real`). Read so, the regression kernel gives the least-squares line through its pairs:
its residuals sum to zero and are orthogonal to the x values when these vary, its R² is one less
the share of unexplained variation and lies in `[0, 1]`, and its residual variance divides by
`n - 2` (`linearRegression_real` gives the fit in closed form). The correlation kernel gives the
population covariance over the product of population standard deviations, and the bound
`|r| ≤ 1` is Cauchy–Schwarz, here read off the regression's residuals: the squared co-deviation
is at most the product of the squared deviations because the residual sum of squares is never
negative (`coDev_sq_le`).
-/

namespace OlapCalc.Stats

/-- The reals, where each operation of the kernels is exact: nothing is NaN, the total order is
the order of the reals, and a rank truncates to its floor. -/
noncomputable instance : Arith ℝ where
  zero := 0
  ofNat n := n
  sqrt := Real.sqrt
  isNaN _ := false
  le a b := decide (a ≤ b)
  before a b := decide (a < b)
  toIndex := Nat.floor

section Exact

@[simp] theorem zero_real : (Arith.zero : ℝ) = 0 := rfl

@[simp] theorem ofNat_real (n : Nat) : (Arith.ofNat n : ℝ) = n := rfl

@[simp] theorem sqrt_real (x : ℝ) : Arith.sqrt x = Real.sqrt x := rfl

theorem Kahan.add_exact (s x : ℝ) : (⟨s, 0⟩ : Kahan ℝ).add x = ⟨s + x, 0⟩ := by
  simp only [Kahan.add]
  congr 1 <;> ring

theorem Kahan.foldl_add {β : Type} (f : β → ℝ) : ∀ (xs : List β) (s : ℝ),
    xs.foldl (fun k x => k.add (f x)) (⟨s, 0⟩ : Kahan ℝ) = ⟨s + (xs.map f).sum, 0⟩
  | [], s => by simp
  | x :: xs, s => by
    rw [List.foldl_cons, Kahan.add_exact, Kahan.foldl_add f xs]
    simp [add_assoc]

theorem Kahan.foldl_add₂ {β : Type} (f g : β → ℝ) : ∀ (xs : List β) (s t : ℝ),
    xs.foldl (fun (acc : Kahan ℝ × Kahan ℝ) x => (acc.1.add (f x), acc.2.add (g x)))
      (⟨s, 0⟩, ⟨t, 0⟩) = (⟨s + (xs.map f).sum, 0⟩, ⟨t + (xs.map g).sum, 0⟩)
  | [], s, t => by simp
  | x :: xs, s, t => by
    rw [List.foldl_cons, Kahan.add_exact, Kahan.add_exact, Kahan.foldl_add₂ f g xs]
    simp [add_assoc]

/-- The compensated sum is the sum. -/
theorem sum_real (xs : List ℝ) : Stats.sum xs = xs.sum := by
  simpa [Stats.sum, Kahan.init] using congrArg Kahan.sum (Kahan.foldl_add id xs 0)

theorem mean_real (xs : List ℝ) :
    mean xs = if xs = [] then none else some (xs.sum / xs.length) := by
  simp [mean, sum_real]

theorem sumSqDev_real (xs : List ℝ) (m : ℝ) :
    sumSqDev xs m = (xs.map fun x => (x - m) * (x - m)).sum := by
  simpa [sumSqDev, Kahan.init] using
    congrArg Kahan.sum (Kahan.foldl_add (fun x => (x - m) * (x - m)) xs 0)

end Exact

section Pairs

variable (ps : List (ℝ × ℝ))

/-- The mean of one coordinate of the pairs. -/
noncomputable def meanOf (f : ℝ × ℝ → ℝ) : ℝ := (ps.map f).sum / ps.length

/-- The sum of the products of two coordinates' deviations from their means. -/
noncomputable def coDev (f g : ℝ × ℝ → ℝ) : ℝ :=
  (ps.map fun p => (f p - meanOf ps f) * (g p - meanOf ps g)).sum

/-- The least-squares slope; zero when the x values do not vary. -/
noncomputable def slopeOf : ℝ :=
  if coDev ps Prod.fst Prod.fst = 0 then 0
  else coDev ps Prod.fst Prod.snd / coDev ps Prod.fst Prod.fst

/-- The intercept that puts the line through the means. -/
noncomputable def interceptOf : ℝ := meanOf ps Prod.snd - slopeOf ps * meanOf ps Prod.fst

/-- The sum of squared residuals of the line. -/
noncomputable def sseOf : ℝ :=
  (ps.map fun p => (p.2 - (slopeOf ps * p.1 + interceptOf ps)) *
    (p.2 - (slopeOf ps * p.1 + interceptOf ps))).sum

/-- The fit the regression kernel computes, in closed form. -/
noncomputable def exactFit : LinearFit ℝ where
  n := ps.length
  slope := slopeOf ps
  intercept := interceptOf ps
  r2 := if coDev ps Prod.snd Prod.snd = 0 then none
    else some (1 - sseOf ps / coDev ps Prod.snd Prod.snd)
  variance := if 3 ≤ ps.length then some (sseOf ps / (ps.length - 2 : ℕ)) else none

theorem zip_fst_snd : (ps.map Prod.fst).zip (ps.map Prod.snd) = ps := by
  rw [← List.unzip_fst, ← List.unzip_snd, List.zip_unzip]

end Pairs

/-- Read over the reals, the regression kernel computes the closed-form fit. -/
theorem linearRegression_real (ps : List (ℝ × ℝ)) (h : ps ≠ []) :
    linearRegression ps.unzip.1 ps.unzip.2 = some (exactFit ps) := by
  simp only [linearRegression, Kahan.init, zero_real, Kahan.foldl_add, Kahan.foldl_add₂]
  -- the slope's test is decided once, on both sides
  by_cases hc : coDev ps Prod.fst Prod.fst = 0
  · have hc' : (ps.map fun p => (p.1 - (ps.map Prod.fst).sum / ps.length) *
        (p.1 - (ps.map Prod.fst).sum / ps.length)).sum = 0 := hc
    simp [mean_real, h, exactFit, sumSqDev_real, zip_fst_snd, List.take_of_length_le, hc',
      sseOf, interceptOf, slopeOf, coDev, meanOf, Function.comp_def]
  · have hc' : ¬ (ps.map fun p => (p.1 - (ps.map Prod.fst).sum / ps.length) *
        (p.1 - (ps.map Prod.fst).sum / ps.length)).sum = 0 := hc
    simp [mean_real, h, exactFit, sumSqDev_real, zip_fst_snd, List.take_of_length_le, hc',
      sseOf, interceptOf, slopeOf, coDev, meanOf, Function.comp_def]

section LeastSquares

variable {ps : List (ℝ × ℝ)}

theorem sum_map_sub_const (ps : List (ℝ × ℝ)) (f : ℝ × ℝ → ℝ) (c : ℝ) :
    (ps.map fun p => f p - c).sum = (ps.map f).sum - ps.length * c := by
  induction ps with
  | nil => simp
  | cons p ps ih =>
    simp only [List.map_cons, List.sum_cons, ih, List.length_cons, Nat.cast_succ]
    ring

theorem sum_map_sub_mul (ps : List (ℝ × ℝ)) (a b : ℝ × ℝ → ℝ) (s : ℝ) :
    (ps.map fun p => a p - s * b p).sum = (ps.map a).sum - s * (ps.map b).sum := by
  induction ps with
  | nil => simp
  | cons p ps ih =>
    simp only [List.map_cons, List.sum_cons, ih]
    ring

theorem sum_map_sq_sub_mul (ps : List (ℝ × ℝ)) (a b : ℝ × ℝ → ℝ) (s : ℝ) :
    (ps.map fun p => (a p - s * b p) * (a p - s * b p)).sum =
      (ps.map fun p => a p * a p).sum - 2 * s * (ps.map fun p => b p * a p).sum +
        s * s * (ps.map fun p => b p * b p).sum := by
  induction ps with
  | nil => simp
  | cons p ps ih =>
    simp only [List.map_cons, List.sum_cons, ih]
    ring

theorem sum_dev_eq_zero (h : ps ≠ []) (f : ℝ × ℝ → ℝ) :
    (ps.map fun p => f p - meanOf ps f).sum = 0 := by
  have hn : (ps.length : ℝ) ≠ 0 := by simpa using h
  rw [sum_map_sub_const, meanOf, mul_div_cancel₀ _ hn, sub_self]

theorem coDev_self_nonneg (f : ℝ × ℝ → ℝ) : 0 ≤ coDev ps f f :=
  List.sum_nonneg fun _ hx => by
    obtain ⟨p, _, rfl⟩ := List.mem_map.1 hx
    exact mul_self_nonneg _

theorem coDev_self_eq_zero_iff (f : ℝ × ℝ → ℝ) :
    coDev ps f f = 0 ↔ ∀ a ∈ ps, ∀ b ∈ ps, f a = f b := by
  constructor
  · intro h0
    -- every deviation vanishes, so every value is the mean
    have hdev : ∀ p ∈ ps, f p = meanOf ps f := fun p hp => by
      have hsq := List.all_zero_of_le_zero_le_of_sum_eq_zero
        (fun _ hx => by obtain ⟨q, _, rfl⟩ := List.mem_map.1 hx; exact mul_self_nonneg _) h0
        (List.mem_map.2 ⟨p, hp, rfl⟩)
      exact sub_eq_zero.1 (mul_self_eq_zero.1 hsq)
    intro a ha b hb
    rw [hdev a ha, hdev b hb]
  · intro hconst
    rcases ps with _ | ⟨p₀, rest⟩
    · simp [coDev]
    · -- the mean is the common value
      have hmap : (p₀ :: rest).map f = List.replicate (rest.length + 1) (f p₀) :=
        List.eq_replicate_iff.2 ⟨by simp, fun x hx => by
          obtain ⟨q, hq, rfl⟩ := List.mem_map.1 hx
          exact hconst q hq p₀ List.mem_cons_self⟩
      have hmean : meanOf (p₀ :: rest) f = f p₀ := by
        rw [meanOf, hmap, List.sum_replicate, nsmul_eq_mul, List.length_cons,
          mul_div_cancel_left₀ _ (by positivity)]
      refine List.sum_eq_zero fun x hx => ?_
      obtain ⟨q, hq, rfl⟩ := List.mem_map.1 hx
      rw [hmean, hconst q hq p₀ List.mem_cons_self, sub_self, mul_zero]

theorem residual_eq (p : ℝ × ℝ) :
    p.2 - (slopeOf ps * p.1 + interceptOf ps) =
      (p.2 - meanOf ps Prod.snd) - slopeOf ps * (p.1 - meanOf ps Prod.fst) := by
  rw [interceptOf]
  ring

theorem sum_residual_eq_zero (h : ps ≠ []) :
    (ps.map fun p => p.2 - (slopeOf ps * p.1 + interceptOf ps)).sum = 0 := by
  rw [List.map_congr_left fun p _ => residual_eq p, sum_map_sub_mul, sum_dev_eq_zero h,
    sum_dev_eq_zero h, mul_zero, sub_zero]

theorem sum_dev_mul_residual :
    (ps.map fun p => (p.1 - meanOf ps Prod.fst) * (p.2 - (slopeOf ps * p.1 + interceptOf ps))).sum =
      coDev ps Prod.fst Prod.snd - slopeOf ps * coDev ps Prod.fst Prod.fst := by
  rw [coDev, coDev, ← sum_map_sub_mul]
  refine congrArg List.sum (List.map_congr_left fun p _ => ?_)
  rw [residual_eq]
  ring

theorem sum_mul_residual_eq_zero (h : ps ≠ []) (hx : coDev ps Prod.fst Prod.fst ≠ 0) :
    (ps.map fun p => p.1 * (p.2 - (slopeOf ps * p.1 + interceptOf ps))).sum = 0 := by
  -- each x is its deviation plus the mean
  have hsplit : (ps.map fun p => p.1 * (p.2 - (slopeOf ps * p.1 + interceptOf ps))).sum =
      (ps.map fun p => (p.1 - meanOf ps Prod.fst) *
        (p.2 - (slopeOf ps * p.1 + interceptOf ps))).sum +
      meanOf ps Prod.fst * (ps.map fun p => p.2 - (slopeOf ps * p.1 + interceptOf ps)).sum := by
    rw [← List.sum_map_mul_left, ← List.sum_map_add]
    refine congrArg List.sum (List.map_congr_left fun p _ => ?_)
    ring
  rw [hsplit, sum_dev_mul_residual, sum_residual_eq_zero h, slopeOf, if_neg hx,
    div_mul_cancel₀ _ hx]
  ring

theorem sseOf_eq :
    sseOf ps = coDev ps Prod.snd Prod.snd - 2 * slopeOf ps * coDev ps Prod.fst Prod.snd +
      slopeOf ps * slopeOf ps * coDev ps Prod.fst Prod.fst := by
  rw [sseOf, List.map_congr_left fun p _ => by rw [residual_eq p], sum_map_sq_sub_mul]
  rfl

theorem sseOf_nonneg : 0 ≤ sseOf ps :=
  List.sum_nonneg fun _ hx => by
    obtain ⟨p, _, rfl⟩ := List.mem_map.1 hx
    exact mul_self_nonneg _

theorem sseOf_eq_of_ne (hx : coDev ps Prod.fst Prod.fst ≠ 0) :
    sseOf ps = coDev ps Prod.snd Prod.snd -
      coDev ps Prod.fst Prod.snd ^ 2 / coDev ps Prod.fst Prod.fst := by
  rw [sseOf_eq, slopeOf, if_neg hx]
  field_simp
  ring

theorem sseOf_le : sseOf ps ≤ coDev ps Prod.snd Prod.snd := by
  by_cases hx : coDev ps Prod.fst Prod.fst = 0
  · rw [sseOf_eq, slopeOf, if_pos hx]
    simp
  · rw [sseOf_eq_of_ne hx]
    have hpos : 0 < coDev ps Prod.fst Prod.fst := lt_of_le_of_ne (coDev_self_nonneg _) (Ne.symm hx)
    have : 0 ≤ coDev ps Prod.fst Prod.snd ^ 2 / coDev ps Prod.fst Prod.fst := by positivity
    linarith

/-- Cauchy–Schwarz for the deviations, from the residual sum of squares being non-negative. -/
theorem coDev_sq_le :
    coDev ps Prod.fst Prod.snd ^ 2 ≤ coDev ps Prod.fst Prod.fst * coDev ps Prod.snd Prod.snd := by
  by_cases hx : coDev ps Prod.fst Prod.fst = 0
  · -- no x spread: every x deviation is zero, so is the co-deviation
    have hdev : ∀ p ∈ ps, p.1 - meanOf ps Prod.fst = 0 := fun p hp => by
      have hsq := List.all_zero_of_le_zero_le_of_sum_eq_zero
        (fun _ hx => by obtain ⟨q, _, rfl⟩ := List.mem_map.1 hx; exact mul_self_nonneg _) hx
        (List.mem_map.2 ⟨p, hp, rfl⟩)
      exact mul_self_eq_zero.1 hsq
    have hco : coDev ps Prod.fst Prod.snd = 0 :=
      List.sum_eq_zero fun x hx => by
        obtain ⟨q, hq, rfl⟩ := List.mem_map.1 hx
        rw [hdev q hq, zero_mul]
    rw [hco, hx]
    simp
  · have hpos : 0 < coDev ps Prod.fst Prod.fst := lt_of_le_of_ne (coDev_self_nonneg _) (Ne.symm hx)
    have hsse : 0 ≤ sseOf ps := sseOf_nonneg
    rw [sseOf_eq_of_ne hx, sub_nonneg, div_le_iff₀ hpos] at hsse
    linarith

end LeastSquares

section Correlation

variable {ps : List (ℝ × ℝ)}

theorem covariance_real (ps : List (ℝ × ℝ)) :
    covariance ps.unzip.1 ps.unzip.2 .population =
      if ps = [] then none else some (coDev ps Prod.fst Prod.snd / ps.length) := by
  by_cases h : ps = []
  · subst h
    simp [covariance, divisor]
  · have hn : 1 ≤ ps.length := List.length_pos_iff.2 h
    simp [covariance, divisor, hn, h, mean_real, Kahan.init, Kahan.foldl_add, zip_fst_snd,
      List.take_of_length_le, coDev, meanOf]

theorem stdev_real (ps : List (ℝ × ℝ)) (f : ℝ × ℝ → ℝ) :
    stdev (ps.map f) .population =
      if ps = [] then none else some (Real.sqrt (coDev ps f f / ps.length)) := by
  by_cases h : ps = []
  · subst h
    simp [stdev, variance, divisor]
  · have hn : 1 ≤ ps.length := List.length_pos_iff.2 h
    simp [stdev, variance, divisor, hn, h, mean_real, sumSqDev_real, coDev, meanOf,
      Function.comp_def]

theorem sqrt_spread_eq_zero_iff (h : ps ≠ []) (f : ℝ × ℝ → ℝ) :
    Real.sqrt (coDev ps f f / ps.length) = 0 ↔ coDev ps f f = 0 := by
  have hn : (0 : ℝ) < ps.length := by simpa [List.length_pos_iff] using h
  rw [Real.sqrt_eq_zero', div_le_iff₀ hn, zero_mul]
  exact ⟨fun hle => le_antisymm hle (coDev_self_nonneg f), le_of_eq⟩

theorem correlation_real (ps : List (ℝ × ℝ)) :
    correlation ps.unzip.1 ps.unzip.2 =
      if ps = [] ∨ coDev ps Prod.fst Prod.fst = 0 ∨ coDev ps Prod.snd Prod.snd = 0 then none
      else some (coDev ps Prod.fst Prod.snd / ps.length /
        (Real.sqrt (coDev ps Prod.fst Prod.fst / ps.length) *
          Real.sqrt (coDev ps Prod.snd Prod.snd / ps.length))) := by
  have hx : ps.unzip.1 = ps.map Prod.fst := List.unzip_fst
  have hy : ps.unzip.2 = ps.map Prod.snd := List.unzip_snd
  by_cases h : ps = []
  · subst h
    simp [correlation, covariance, divisor]
  · rw [correlation, covariance_real, hx, hy, stdev_real, stdev_real]
    simp only [h, if_false, false_or, zero_real, Bool.or_eq_true, beq_iff_eq, Option.pure_def,
      Option.bind_eq_bind, Option.bind_some, sqrt_spread_eq_zero_iff h]

theorem abs_correlation_le_one (ps : List (ℝ × ℝ)) :
    |coDev ps Prod.fst Prod.snd / ps.length /
      (Real.sqrt (coDev ps Prod.fst Prod.fst / ps.length) *
        Real.sqrt (coDev ps Prod.snd Prod.snd / ps.length))| ≤ 1 := by
  have hxx : 0 ≤ coDev ps Prod.fst Prod.fst := coDev_self_nonneg _
  have hyy : 0 ≤ coDev ps Prod.snd Prod.snd := coDev_self_nonneg _
  -- the squared covariance is at most the product of the variances
  have hsq : (coDev ps Prod.fst Prod.snd / ps.length) ^ 2 ≤
      coDev ps Prod.fst Prod.fst / ps.length * (coDev ps Prod.snd Prod.snd / ps.length) :=
    calc (coDev ps Prod.fst Prod.snd / ps.length) ^ 2
        = coDev ps Prod.fst Prod.snd ^ 2 / (ps.length * ps.length) := by ring
      _ ≤ coDev ps Prod.fst Prod.fst * coDev ps Prod.snd Prod.snd / (ps.length * ps.length) := by
          gcongr
          exact coDev_sq_le
      _ = coDev ps Prod.fst Prod.fst / ps.length * (coDev ps Prod.snd Prod.snd / ps.length) := by
          ring
  have hle := Real.abs_le_sqrt hsq
  rw [Real.sqrt_mul (by positivity)] at hle
  rw [abs_div]
  exact div_le_one_of_le₀ (le_trans hle (le_abs_self _)) (abs_nonneg _)

end Correlation

section Fit

variable {ps : List (ℝ × ℝ)}

theorem exactFit_sse (ps : List (ℝ × ℝ)) :
    (ps.map fun p => (p.2 - (exactFit ps).point p.1) ^ 2).sum = sseOf ps := by
  simp [sseOf, sq, LinearFit.point, exactFit]

theorem exactFit_of_const (hx : coDev ps Prod.fst Prod.fst = 0) :
    (exactFit ps).slope = 0 ∧ (exactFit ps).intercept = meanOf ps Prod.snd := by
  have hs : slopeOf ps = 0 := if_pos hx
  exact ⟨hs, by simp [exactFit, interceptOf, hs]⟩

theorem r2_mem_unit :
    0 ≤ 1 - sseOf ps / coDev ps Prod.snd Prod.snd ∧ 1 - sseOf ps / coDev ps Prod.snd Prod.snd ≤ 1 := by
  have hle : sseOf ps / coDev ps Prod.snd Prod.snd ≤ 1 :=
    div_le_one_of_le₀ sseOf_le (coDev_self_nonneg _)
  have hnn : 0 ≤ sseOf ps / coDev ps Prod.snd Prod.snd :=
    div_nonneg sseOf_nonneg (coDev_self_nonneg _)
  constructor <;> linarith

end Fit

/-- Read over the reals, the regression kernel fits the least-squares line through the pairs,
with R² and the residual variance gated on their own conditions, and the correlation kernel is
Pearson's coefficient, undefined exactly when a side is constant and otherwise in `[-1, 1]`. -/
theorem regression_correlation_exact (ps : List (ℝ × ℝ)) :
    (ps = [] → linearRegression ps.unzip.1 ps.unzip.2 = none) ∧
    (ps ≠ [] → ∃ fit, linearRegression ps.unzip.1 ps.unzip.2 = some fit ∧
      (ps.map fun p => p.2 - fit.point p.1).sum = 0 ∧
      (¬ (∀ a ∈ ps, ∀ b ∈ ps, a.1 = b.1) →
        (ps.map fun p => p.1 * (p.2 - fit.point p.1)).sum = 0) ∧
      ((∀ a ∈ ps, ∀ b ∈ ps, a.1 = b.1) → fit.slope = 0 ∧ fit.intercept = meanOf ps Prod.snd) ∧
      (fit.r2.isSome ↔ coDev ps Prod.snd Prod.snd ≠ 0) ∧
      (∀ r, fit.r2 = some r →
        r = 1 - (ps.map fun p => (p.2 - fit.point p.1) ^ 2).sum / coDev ps Prod.snd Prod.snd ∧
        0 ≤ r ∧ r ≤ 1) ∧
      (fit.variance.isSome ↔ 3 ≤ ps.length) ∧
      (∀ v, fit.variance = some v →
        v = (ps.map fun p => (p.2 - fit.point p.1) ^ 2).sum / ((ps.length : ℝ) - 2))) ∧
    (correlation ps.unzip.1 ps.unzip.2 = none ↔
      ps = [] ∨ (∀ a ∈ ps, ∀ b ∈ ps, a.1 = b.1) ∨ (∀ a ∈ ps, ∀ b ∈ ps, a.2 = b.2)) ∧
    (∀ r, correlation ps.unzip.1 ps.unzip.2 = some r →
      r = coDev ps Prod.fst Prod.snd / ps.length /
        (Real.sqrt (coDev ps Prod.fst Prod.fst / ps.length) *
          Real.sqrt (coDev ps Prod.snd Prod.snd / ps.length)) ∧
      -1 ≤ r ∧ r ≤ 1) := by
  refine ⟨fun h => ?empty, fun h => ⟨exactFit ps, linearRegression_real ps h, ?fit⟩, ?undef, ?value⟩
  case empty =>
    subst h
    simp [linearRegression]
  case fit =>
    rw [exactFit_sse]
    refine ⟨sum_residual_eq_zero h, fun hx => ?_, fun hx => ?_, ?_, fun r hr => ?_, ?_,
      fun v hv => ?_⟩
    · exact sum_mul_residual_eq_zero h (mt (coDev_self_eq_zero_iff _).1 hx)
    · exact exactFit_of_const ((coDev_self_eq_zero_iff _).2 hx)
    · simp [exactFit]
    · -- R² is set only with a non-zero total, and then it is one less the unexplained share
      have hr' : 1 - sseOf ps / coDev ps Prod.snd Prod.snd = r := by
        by_cases h0 : coDev ps Prod.snd Prod.snd = 0 <;> simp_all [exactFit]
      subst hr'
      exact ⟨rfl, r2_mem_unit⟩
    · simp [exactFit]
    · have h3 : 3 ≤ ps.length := by
        by_contra h3
        simp [exactFit, h3] at hv
      have hv' : sseOf ps / (ps.length - 2 : ℕ) = v := by simpa [exactFit, h3] using hv
      rw [← hv', Nat.cast_sub (by omega)]
      norm_num
  case undef =>
    rw [correlation_real, ← coDev_self_eq_zero_iff, ← coDev_self_eq_zero_iff]
    split_ifs with hc
    · simpa using hc
    · simpa using hc
  case value =>
    intro r hr
    rw [correlation_real] at hr
    split_ifs at hr with hc
    cases hr
    have hb := abs_le.1 (abs_correlation_le_one ps)
    exact ⟨rfl, hb.1, hb.2⟩

end OlapCalc.Stats
