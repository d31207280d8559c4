import Mathlib
import OlapCalc.Proofs.FloatModel

/-!
Order, exact conversions and rounded products of non-negative binary64 values.

Canonical positive values compare by exponent and then significand, which is the order of their
magnitudes (`compare_finite_positive`); so for decoded non-negative values the IEEE comparisons
are the comparisons of their magnitudes (`le_iff_magnitude`, `beq_iff_magnitude`). Naturals below
`2 ^ 53` convert exactly (`ofNat_exact`), and the saturating conversion to an index truncates
(`toNat64_eq_floor`). A product whose exact value lies below such a natural rounds to at most
that natural (`decode_mul_le`): rounding to nearest moves the truncated mantissa up by at most
one unit, and the natural is a whole number of units.
-/

namespace OlapCalc.Binary64

open Float.Model Float.Model.UnpackedFloat

theorem value_lt_of_exponent_lt {m₁ m₂ : ℕ} {e₁ e₂ : ℤ} (hm₁ : m₁ < 2 ^ 53) (hm₂ : 2 ^ 52 ≤ m₂)
    (he : e₁ < e₂) : (m₁ : ℚ) * 2 ^ e₁ < m₂ * 2 ^ e₂ := by
  have hm₁' : (m₁ : ℚ) < 2 ^ 53 := by exact_mod_cast hm₁
  have hm₂' : (2 : ℚ) ^ 52 ≤ m₂ := by exact_mod_cast hm₂
  calc (m₁ : ℚ) * 2 ^ e₁ < 2 ^ 53 * 2 ^ e₁ := by gcongr
    _ = 2 ^ 52 * 2 ^ (e₁ + 1) := by rw [zpow_add_one₀ two_ne_zero]; ring
    _ ≤ 2 ^ 52 * 2 ^ e₂ := by gcongr <;> norm_num; omega
    _ ≤ m₂ * 2 ^ e₂ := by gcongr

theorem compare_mul_zpow (m₁ m₂ : ℕ) (e : ℤ) :
    compare ((m₁ : ℚ) * 2 ^ e) (m₂ * 2 ^ e) = compare m₁ m₂ := by
  have hpos : (0 : ℚ) < 2 ^ e := by positivity
  rcases lt_trichotomy m₁ m₂ with h | rfl | h
  · rw [compare_lt_iff_lt.2 h, compare_lt_iff_lt.2]
    gcongr
  · rw [compare_eq_iff_eq.2 rfl, compare_eq_iff_eq.2 rfl]
  · rw [compare_gt_iff_gt.2 h, compare_gt_iff_gt.2]
    gcongr

/-- Canonical positive values compare as their exponents and then their significands, which is
the order of their values. -/
theorem compare_finite_positive {m₁ m₂ : ℕ} {e₁ e₂ : ℤ} {h₁ : 0 < m₁} {h₂ : 0 < m₂}
    (hc₁ : Canonical (.finite .positive m₁ e₁ h₁)) (hc₂ : Canonical (.finite .positive m₂ e₂ h₂)) :
    (UnpackedFloat.finite .positive m₁ e₁ h₁).compare (.finite .positive m₂ e₂ h₂) =
      some (compare ((m₁ : ℚ) * 2 ^ e₁) (m₂ * 2 ^ e₂)) := by
  obtain ⟨hm₁, hlo₁, -, hn₁⟩ := hc₁
  obtain ⟨hm₂, hlo₂, -, hn₂⟩ := hc₂
  show some ((compare e₁ e₂).then (compare m₁ m₂)) = _
  rcases lt_trichotomy e₁ e₂ with h | rfl | h
  · have hv := value_lt_of_exponent_lt hm₁ (hn₂.resolve_right (by omega)) h
    rw [compare_lt_iff_lt.2 h, compare_lt_iff_lt.2 hv]
    rfl
  · rw [compare_eq_iff_eq.2 rfl, compare_mul_zpow]
    rfl
  · have hv := value_lt_of_exponent_lt hm₂ (hn₁.resolve_right (by omega)) h
    rw [compare_gt_iff_gt.2 h, compare_gt_iff_gt.2 hv]
    rfl

theorem unpack_of_decode {x : Float} {f : Finite} (h : decode x = .finite f)
    (hf : f.negative = false) :
    (f.significand = 0 ∧ x.toModel.unpack = .zero .positive) ∨
      ∃ hm : 0 < f.significand, x.toModel.unpack = .finite .positive f.significand f.exponent hm := by
  rw [decode_eq_ofUnpacked] at h
  cases hu : x.toModel.unpack with
  | notANumber => simp [hu, Decoded.ofUnpacked] at h
  | infinity s => simp [hu, Decoded.ofUnpacked] at h
  | zero s =>
    rw [hu, Decoded.ofUnpacked, Decoded.finite.injEq] at h
    subst h
    cases s with
    | positive => exact Or.inl ⟨rfl, rfl⟩
    | negative => simp at hf
  | finite s m e hm =>
    rw [hu, Decoded.ofUnpacked, Decoded.finite.injEq] at h
    subst h
    cases s with
    | positive => exact Or.inr ⟨hm, rfl⟩
    | negative => simp at hf

theorem canonical_toModel (x : Float) : Canonical x.toModel.unpack := canonical_unpack _

theorem compare_eq_magnitude {x y : Float} {f g : Finite} (hx : decode x = .finite f)
    (hy : decode y = .finite g) (hf : f.negative = false) (hg : g.negative = false) :
    x.toModel.unpack.compare y.toModel.unpack = some (compare f.magnitude g.magnitude) := by
  have hcx := canonical_toModel x
  have hcy := canonical_toModel y
  rcases unpack_of_decode hx hf with ⟨hx0, hux⟩ | ⟨hmx, hux⟩ <;>
    rcases unpack_of_decode hy hg with ⟨hy0, huy⟩ | ⟨hmy, huy⟩ <;>
    rw [hux, huy] <;> rw [hux] at hcx <;> rw [huy] at hcy
  · -- two zeros
    simp [Finite.magnitude, hx0, hy0]
    rfl
  · -- zero below a positive value
    have : (0 : ℚ) < g.magnitude := by unfold Finite.magnitude; positivity
    simp only [Finite.magnitude, hx0, Nat.cast_zero, zero_mul] at this ⊢
    rw [compare_lt_iff_lt.2 this]
    rfl
  · have : (0 : ℚ) < f.magnitude := by unfold Finite.magnitude; positivity
    simp only [Finite.magnitude, hy0, Nat.cast_zero, zero_mul] at this ⊢
    rw [compare_gt_iff_gt.2 this]
    rfl
  · exact compare_finite_positive hcx hcy

theorem le_iff_magnitude {x y : Float} {f g : Finite} (hx : decode x = .finite f)
    (hy : decode y = .finite g) (hf : f.negative = false) (hg : g.negative = false) :
    x ≤ y ↔ f.magnitude ≤ g.magnitude := by
  change decide (x.toModel.unpack.le y.toModel.unpack = true) = true ↔ _
  rw [decide_eq_true_iff, UnpackedFloat.le, compare_eq_magnitude hx hy hf hg]
  simp [Option.any, Ordering.isLE_iff_ne_gt, compare_gt_iff_gt, not_lt]

theorem beq_iff_magnitude {x y : Float} {f g : Finite} (hx : decode x = .finite f)
    (hy : decode y = .finite g) (hf : f.negative = false) (hg : g.negative = false) :
    (x == y) = true ↔ f.magnitude = g.magnitude := by
  rw [beq_eq_unpack, UnpackedFloat.beq, compare_eq_magnitude hx hy hf hg]
  simp

theorem decode_ofBits (a : UInt64) :
    decode (Float.ofBits a) = Decoded.ofUnpacked (unpack Format.binary64 a.toBitVec) := by
  rw [decode_eq_ofUnpacked]
  exact congrArg Decoded.ofUnpacked (unpack_pack (canonical_unpack _))

theorem decode_encode {m : ℕ} {e : ℤ} (hm : 2 ^ 52 ≤ m) (hm' : m < 2 ^ 53) (he : -1074 ≤ e)
    (he' : e ≤ 971) : decode (encode false m e) = .finite ⟨false, m, e⟩ := by
  have hnot : ¬ m < 2 ^ 52 := by omega
  unfold encode
  simp only [Bool.false_eq_true, if_false, Nat.pow_eq]
  rw [if_neg hnot, zero_add, decode_ofBits]
  -- the word: the biased exponent above the stored fraction, with a clear sign bit
  generalize hW : (e + 1075).toNat * 2 ^ 52 + (m - 2 ^ 52) = w
  have hw : w < 2 ^ 64 := by omega
  have hbits : (UInt64.ofNat w).toBitVec.toNat = w := by
    simp
    omega
  have hfield : w / 2 ^ 52 % 2 ^ 11 = (e + 1075).toNat := by omega
  have hfrac : w % 2 ^ 52 = m - 2 ^ 52 := by omega
  have hsign : w / 2 ^ 63 % 2 = 0 := by omega
  rw [unpack_eq]
  simp only [hbits, hfield, hfrac, hsign]
  rw [if_neg (by omega), if_neg (by omega)]
  simp only [Decoded.ofUnpacked, Decoded.finite.injEq, Finite.mk.injEq]
  refine ⟨rfl, by omega, by omega⟩

theorem scaleExponent_nat {n : ℕ} (h0 : 0 < n) (h : n < 2 ^ 53) :
    scaleExponent n 1 = (n.log2 : ℤ) - 52 := by
  have hlog : n.log2 < 53 := (Nat.log2_lt h0.ne').2 h
  have hpow : 2 ^ n.log2 ≤ n := Nat.log2_self_le h0.ne'
  have hfits : 2 ^ 52 ≤ n * 2 ^ (52 - n.log2) := by
    calc 2 ^ 52 = 2 ^ n.log2 * 2 ^ (52 - n.log2) := by rw [← Nat.pow_add]; congr 1; omega
      _ ≤ n * 2 ^ (52 - n.log2) := Nat.mul_le_mul_right _ hpow
  have hlog1 : Nat.log2 1 = 0 := by decide
  unfold scaleExponent
  simp only [hlog1, Nat.cast_zero, sub_zero, Nat.pow_eq, Nat.div_one, one_mul]
  -- the first guess already fits, and it is far above the subnormal exponent
  by_cases hc : (n.log2 : ℤ) - 52 ≥ 0
  · have h52 : ((n.log2 : ℤ) - 52).toNat = 0 := by omega
    have hfit : n / 2 ^ ((n.log2 : ℤ) - 52).toNat ≥ 2 ^ 52 := by
      have hl : n.log2 = 52 := by omega
      rw [h52, pow_zero, Nat.div_one, ← hl]
      exact hpow
    rw [if_pos hc, if_pos (decide_eq_true hfit), if_neg (by omega)]
  · have hk : (-((n.log2 : ℤ) - 52)).toNat = 52 - n.log2 := by omega
    have hfit : n * 2 ^ (-((n.log2 : ℤ) - 52)).toNat ≥ 2 ^ 52 := by
      rw [hk]
      exact hfits
    rw [if_neg hc, if_pos (decide_eq_true hfit), if_neg (by omega)]

theorem scaled_nat_bounds {n : ℕ} (h0 : 0 < n) (h : n < 2 ^ 53) :
    2 ^ 52 ≤ n * 2 ^ (52 - n.log2) ∧ n * 2 ^ (52 - n.log2) < 2 ^ 53 := by
  have hlog : n.log2 < 53 := (Nat.log2_lt h0.ne').2 h
  have hsplit : 2 ^ 53 = 2 ^ (n.log2 + 1) * 2 ^ (52 - n.log2) := by
    rw [← Nat.pow_add]
    congr 1
    omega
  constructor
  · calc 2 ^ 52 = 2 ^ n.log2 * 2 ^ (52 - n.log2) := by rw [← Nat.pow_add]; congr 1; omega
      _ ≤ n * 2 ^ (52 - n.log2) := Nat.mul_le_mul_right _ (Nat.log2_self_le h0.ne')
  · rw [hsplit]
    exact Nat.mul_lt_mul_of_pos_right Nat.lt_log2_self (Nat.two_pow_pos _)

theorem decode_ofNat {n : ℕ} (h0 : 0 < n) (h : n < 2 ^ 53) :
    decode (ofNat n) = .finite ⟨false, n * 2 ^ (52 - n.log2), (n.log2 : ℤ) - 52⟩ := by
  have hlog : n.log2 < 53 := (Nat.log2_lt h0.ne').2 h
  obtain ⟨hm, hm'⟩ := scaled_nat_bounds h0 h
  -- the quotient to round is the shifted natural itself, over one
  have hpair : (if (n.log2 : ℤ) - 52 ≥ 0 then (n, 1 * Nat.pow 2 ((n.log2 : ℤ) - 52).toNat)
      else (n * Nat.pow 2 (-((n.log2 : ℤ) - 52)).toNat, 1)) = (n * 2 ^ (52 - n.log2), 1) := by
    split_ifs with hc
    · have hl : n.log2 = 52 := by omega
      simp [hl]
    · simp
  have hn0 : (n == 0 || 1 == 0) = false := by simp [h0.ne']
  have hup : (decide (2 * 0 > 1) || (2 * 0 == 1 && n * 2 ^ (52 - n.log2) / 1 % 2 == 1)) = false := by
    simp
  have hne : ¬ n * 2 ^ (52 - n.log2) / 1 = Nat.pow 2 53 := by
    rw [Nat.div_one, Nat.pow_eq]
    omega
  unfold ofNat roundRatio
  simp only [scaleExponent_nat h0 h, hpair, hn0, Bool.false_eq_true, if_false, Nat.mod_one, hup,
    beq_iff_eq, hne]
  rw [if_neg (by omega), Nat.div_one]
  exact decode_encode hm hm' (by omega) (by omega)

/-! ### Rounding a product -/

theorem mantissa_shiftRight (em : ExtendedMantissa) (k : ℕ) :
    (em >>> k).mantissa = em.mantissa / 2 ^ k := by
  induction k generalizing em with
  | zero => simp [HShiftRight.hShiftRight, Nat.repeat]
  | succ k ih =>
    change (ExtendedMantissa.shiftRightOne (em >>> k)).mantissa = _
    rw [ExtendedMantissa.shiftRightOne, ih, Nat.div_div_eq_div_mul, Nat.pow_succ]

theorem roundedMantissa_bounds (em : ExtendedMantissa) :
    em.mantissa ≤ em.roundedMantissa ∧ em.roundedMantissa ≤ em.mantissa + 1 := by
  rcases em with ⟨m, _ | _, _ | _⟩ <;>
    simp only [ExtendedMantissa.roundedMantissa, ExtendedMantissa.accuracy,
      Accuracy.roundToNearestEven] <;> omega

theorem targetExponent_eq (m : ℕ) (e : ℤ) :
    Format.binary64.targetExponent (totalExponent m e) = max ((m.log2 : ℤ) + e - 52) (-1074) := by
  simp only [Format.targetExponent, totalExponent, Format.mantissaBits, Format.minExponent]
  norm_num
  omega

theorem shiftToTargetExponent_small {r : ℕ} {t : ℤ} (hr : r < 2 ^ 53) (ht : -1074 ≤ t) :
    shiftToTargetExponent Format.binary64 r t .exact = (⟨r, false, false⟩, t) := by
  have hlog : r.log2 ≤ 52 := by
    rcases Nat.eq_zero_or_pos r with rfl | hr0
    · simp
    · have := (Nat.log2_lt hr0.ne').2 hr
      omega
  have hs : (Format.binary64.targetExponent (totalExponent r t) - t).toNat = 0 := by
    rw [targetExponent_eq]
    omega
  simp [shiftToTargetExponent, shiftToExponent, hs, HShiftRight.hShiftRight, Nat.repeat,
    ExtendedMantissa.ofMantissaAndAccuracy]

theorem shiftToTargetExponent_carry {t : ℤ} (ht : -1075 ≤ t) :
    shiftToTargetExponent Format.binary64 (2 ^ 53) t .exact = (⟨2 ^ 52, false, false⟩, t + 1) := by
  have hs : (Format.binary64.targetExponent (totalExponent (2 ^ 53) t) - t).toNat = 1 := by
    rw [targetExponent_eq, Nat.log2_two_pow]
    omega
  simp only [shiftToTargetExponent, shiftToExponent, hs]
  rfl

section Normal

variable {M : ℕ} (E : ℤ)

/-- The exponent a product of at least 53 bits is rounded to. -/
def roundingExponent (M : ℕ) (E : ℤ) : ℤ := max ((M.log2 : ℤ) + E - 52) (-1074)

theorem exponent_le_roundingExponent (hM : 2 ^ 52 ≤ M) : E ≤ roundingExponent M E := by
  have : 52 ≤ M.log2 := (Nat.le_log2 (by omega)).2 hM
  unfold roundingExponent
  omega

theorem shiftToTargetExponent_normal (hM : 2 ^ 52 ≤ M) :
    shiftToTargetExponent Format.binary64 M E .exact =
      (ExtendedMantissa.mk M false false >>> (roundingExponent M E - E).toNat,
        roundingExponent M E) := by
  have hle := exponent_le_roundingExponent E hM
  unfold shiftToTargetExponent shiftToExponent
  rw [targetExponent_eq, ← roundingExponent]
  dsimp only
  congr 1
  omega

theorem shifted_bounds (hM : 2 ^ 52 ≤ M) :
    M / 2 ^ (roundingExponent M E - E).toNat < 2 ^ 53 ∧
      (2 ^ 52 ≤ M / 2 ^ (roundingExponent M E - E).toNat ∨ roundingExponent M E = -1074) := by
  have hM0 : M ≠ 0 := by omega
  have hlog : 52 ≤ M.log2 := (Nat.le_log2 hM0).2 hM
  set k := (roundingExponent M E - E).toNat with hk
  have hkl : M.log2 ≤ 52 + k := by
    simp only [hk, roundingExponent]
    omega
  constructor
  · rw [Nat.div_lt_iff_lt_mul (Nat.two_pow_pos k), ← Nat.pow_add]
    calc M < 2 ^ (M.log2 + 1) := Nat.lt_log2_self
      _ ≤ 2 ^ (53 + k) := Nat.pow_le_pow_right (by norm_num) (by omega)
  · by_cases ht : roundingExponent M E = -1074
    · exact Or.inr ht
    · left
      have hk' : M.log2 = 52 + k := by
        simp only [hk, roundingExponent] at ht ⊢
        omega
      rw [Nat.le_div_iff_mul_le (Nat.two_pow_pos k), ← Nat.pow_add, ← hk']
      exact Nat.log2_self_le hM0

theorem roundingExponent_nonpos {K : ℕ} (hK : K < 2 ^ 53) (hM : 2 ^ 52 ≤ M)
    (hlt : (M : ℚ) * 2 ^ E < K) : roundingExponent M E ≤ 0 := by
  have hpow : (2 : ℚ) ^ M.log2 ≤ M := by exact_mod_cast Nat.log2_self_le (by omega)
  have h2 : (2 : ℚ) ^ ((M.log2 : ℤ) + E) < 2 ^ (53 : ℤ) := by
    rw [zpow_add₀ two_ne_zero, zpow_natCast]
    calc (2 : ℚ) ^ M.log2 * 2 ^ E ≤ M * 2 ^ E := by gcongr
      _ < K := hlt
      _ < 2 ^ (53 : ℤ) := by exact_mod_cast hK
  have := (zpow_lt_zpow_iff_right₀ (by norm_num : (1 : ℚ) < 2)).1 h2
  unfold roundingExponent
  omega

theorem rounded_le_of_lt {K r : ℕ} (hK : K < 2 ^ 53) (hM : 2 ^ 52 ≤ M)
    (hlt : (M : ℚ) * 2 ^ E < K) (hr : r ≤ M / 2 ^ (roundingExponent M E - E).toNat + 1) :
    (r : ℚ) * 2 ^ roundingExponent M E ≤ K := by
  set k := (roundingExponent M E - E).toNat with hk
  set t := roundingExponent M E with ht
  have hle := exponent_le_roundingExponent E hM
  have htk : t = E + k := by omega
  have hM0 : M ≠ 0 := by omega
  have ht0 : t ≤ 0 := roundingExponent_nonpos E hK hM hlt
  set N := K * 2 ^ (-t).toNat with hN
  have hpowt : (2 : ℚ) ^ t * 2 ^ (-t).toNat = 1 := by
    rw [← zpow_natCast, Int.toNat_of_nonneg (by omega), ← zpow_add₀ two_ne_zero, add_neg_cancel,
      zpow_zero]
  -- the truncated mantissa is below `K` in units of `2 ^ t`
  have hf : M / 2 ^ k < N := by
    have hdiv : ((M / 2 ^ k : ℕ) : ℚ) * 2 ^ t ≤ M * 2 ^ E := by
      have hmul : ((M / 2 ^ k : ℕ) : ℚ) * 2 ^ k ≤ M := by
        exact_mod_cast Nat.div_mul_le_self M (2 ^ k)
      calc ((M / 2 ^ k : ℕ) : ℚ) * 2 ^ t = ((M / 2 ^ k : ℕ) : ℚ) * 2 ^ k * 2 ^ E := by
            rw [htk, zpow_add₀ two_ne_zero, zpow_natCast]
            ring
        _ ≤ M * 2 ^ E := by gcongr
    have : ((M / 2 ^ k : ℕ) : ℚ) < N := by
      rw [hN, Nat.cast_mul, Nat.cast_pow, Nat.cast_ofNat]
      calc ((M / 2 ^ k : ℕ) : ℚ) = ((M / 2 ^ k : ℕ) : ℚ) * 2 ^ t * 2 ^ (-t).toNat := by
            rw [mul_assoc, hpowt, mul_one]
        _ < K * 2 ^ (-t).toNat := by gcongr; exact lt_of_le_of_lt hdiv hlt
    exact_mod_cast this
  have hrN : (r : ℚ) ≤ N := by exact_mod_cast (show r ≤ N by omega)
  calc (r : ℚ) * 2 ^ t ≤ N * 2 ^ t := by gcongr
    _ = K := by rw [hN, Nat.cast_mul, Nat.cast_pow, Nat.cast_ofNat, mul_assoc, mul_comm (_ ^ _),
      hpowt, mul_one]

theorem roundWithAccuracy_le {K : ℕ} (hK : K < 2 ^ 53) (hM : 2 ^ 52 ≤ M)
    (hlt : (M : ℚ) * 2 ^ E < K) (s : Sign) :
    Canonical (roundWithAccuracy Format.binary64 s M E .exact) ∧
      (roundWithAccuracy Format.binary64 s M E .exact = .zero s ∨
        ∃ m e h, roundWithAccuracy Format.binary64 s M E .exact = .finite s m e h ∧
          (m : ℚ) * 2 ^ e ≤ K) := by
  obtain ⟨hf53, hfn⟩ := shifted_bounds E hM
  have ht0 := roundingExponent_nonpos E hK hM hlt
  have ht : -1074 ≤ roundingExponent M E := le_max_right _ _
  have hrb := roundedMantissa_bounds
    (ExtendedMantissa.mk M false false >>> (roundingExponent M E - E).toNat)
  simp only [mantissa_shiftRight] at hrb
  have hval := rounded_le_of_lt E hK hM hlt hrb.2
  unfold roundWithAccuracy
  rw [shiftToTargetExponent_normal E hM]
  dsimp only
  generalize (ExtendedMantissa.mk M false false >>>
    (roundingExponent M E - E).toNat).roundedMantissa = r at hrb hval
  by_cases h53 : r < 2 ^ 53
  · -- no carry: the rounded mantissa stays at the rounding exponent
    rw [shiftToTargetExponent_small h53 ht]
    dsimp only
    split
    · exact ⟨trivial, Or.inl rfl⟩
    · rename_i hr0
      refine ⟨⟨h53, ht, by omega, ?_⟩, Or.inr ⟨r, _, Nat.pos_of_ne_zero hr0, rfl, hval⟩⟩
      rcases hfn with hfn | hfn
      · exact Or.inl (le_trans hfn hrb.1)
      · exact Or.inr hfn
  · -- the carry: `2 ^ 53` becomes `2 ^ 52` one exponent up, the same value
    have hr : r = 2 ^ 53 := by omega
    subst hr
    rw [shiftToTargetExponent_carry (by omega)]
    dsimp only
    rw [dif_neg (by norm_num)]
    refine ⟨⟨by norm_num, by omega, by omega, Or.inl le_rfl⟩, Or.inr ⟨_, _, _, rfl, ?_⟩⟩
    calc ((2 ^ 52 : ℕ) : ℚ) * 2 ^ (roundingExponent M E + 1)
        = ((2 ^ 53 : ℕ) : ℚ) * 2 ^ roundingExponent M E := by
          rw [zpow_add_one₀ two_ne_zero]
          push_cast
          ring
      _ ≤ K := hval

end Normal

theorem unpack_mul (x y : Float) :
    (x * y).toModel.unpack = unpack Format.binary64
      (pack Format.binary64 (UnpackedFloat.mul Format.binary64 x.toModel.unpack y.toModel.unpack)) :=
  rfl

/-- The product of a non-negative value and a normal one, when its exact value lies below an
integer `K < 2 ^ 53`, rounds to a non-negative value at most `K`. -/
theorem decode_mul_le {x y : Float} {f g : Finite} (hx : decode x = .finite f)
    (hy : decode y = .finite g) (hf : f.negative = false) (hg : g.negative = false)
    (hg52 : 2 ^ 52 ≤ g.significand) {K : ℕ} (hK : K < 2 ^ 53)
    (hlt : f.magnitude * g.magnitude < K) :
    ∃ h : Finite, decode (x * y) = .finite h ∧ h.negative = false ∧ h.magnitude ≤ K := by
  rw [decode_eq_ofUnpacked, unpack_mul]
  obtain ⟨hmy, huy⟩ := (unpack_of_decode hy hg).resolve_left (fun h => by omega)
  rcases unpack_of_decode hx hf with ⟨hx0, hux⟩ | ⟨hmx, hux⟩
  · -- a zero factor gives the positive zero
    have hmul : UnpackedFloat.mul Format.binary64 (.zero .positive)
        (.finite .positive g.significand g.exponent hmy) = .zero .positive := rfl
    rw [hux, huy, hmul, @unpack_pack (.zero .positive) trivial]
    refine ⟨⟨false, 0, -1074⟩, rfl, rfl, ?_⟩
    simp [Finite.magnitude]
  · -- two finite factors: the exact product, rounded
    have hM : 2 ^ 52 ≤ f.significand * g.significand :=
      le_trans hg52 (Nat.le_mul_of_pos_left _ hmx)
    have hlt' : ((f.significand * g.significand : ℕ) : ℚ) * 2 ^ (f.exponent + g.exponent) < K := by
      rw [zpow_add₀ two_ne_zero, Nat.cast_mul]
      calc (f.significand : ℚ) * g.significand * (2 ^ f.exponent * 2 ^ g.exponent)
          = f.magnitude * g.magnitude := by unfold Finite.magnitude; ring
        _ < K := hlt
    obtain ⟨hcan, hcases⟩ := roundWithAccuracy_le _ hK hM hlt' .positive
    have hmul : UnpackedFloat.mul Format.binary64 (.finite .positive f.significand f.exponent hmx)
        (.finite .positive g.significand g.exponent hmy) = roundWithAccuracy Format.binary64
          .positive (f.significand * g.significand) (f.exponent + g.exponent) .exact := rfl
    rw [hux, huy, hmul, unpack_pack hcan]
    rcases hcases with hz | ⟨m, e, hm, hu, hle⟩
    · rw [hz]
      refine ⟨⟨false, 0, -1074⟩, rfl, rfl, ?_⟩
      simp [Finite.magnitude]
    · rw [hu]
      exact ⟨⟨false, m, e⟩, rfl, rfl, hle⟩

/-- A natural below `2 ^ 53` converts exactly, and a nonzero one to a normal value. -/
theorem ofNat_exact {n : ℕ} (h : n < 2 ^ 53) :
    ∃ g : Finite, decode (ofNat n) = .finite g ∧ g.negative = false ∧ g.magnitude = n ∧
      (0 < n → 2 ^ 52 ≤ g.significand) := by
  rcases Nat.eq_zero_or_pos n with rfl | h0
  · refine ⟨⟨false, 0, -1074⟩, decode_zero, rfl, by simp [Finite.magnitude], by omega⟩
  · refine ⟨_, decode_ofNat h0 h, rfl, ?_, fun _ => (scaled_nat_bounds h0 h).1⟩
    have hlog : n.log2 < 53 := (Nat.log2_lt h0.ne').2 h
    have hk : ((52 - n.log2 : ℕ) : ℤ) + ((n.log2 : ℤ) - 52) = 0 := by omega
    simp only [Finite.magnitude, Nat.cast_mul, Nat.cast_pow, Nat.cast_ofNat]
    rw [mul_assoc, ← zpow_natCast, ← zpow_add₀ two_ne_zero, hk, zpow_zero, mul_one]

theorem Finite.truncMagnitude_eq_floor (f : Finite) : f.truncMagnitude = ⌊f.magnitude⌋₊ := by
  rw [← f.exact_spec.2, Nat.floor_div_eq_div]
  rfl

/-- The saturating conversion truncates a non-negative value within range. -/
theorem toNat64_eq_floor {x : Float} {f : Finite} (h : decode x = .finite f)
    (hf : f.negative = false) (hlt : f.magnitude < 2 ^ 53) : toNat64 x = ⌊f.magnitude⌋₊ := by
  have hfl : ⌊f.magnitude⌋₊ < 2 ^ 53 := by
    rw [Nat.floor_lt (by unfold Finite.magnitude; positivity)]
    exact_mod_cast hlt
  unfold toNat64
  rw [h]
  simp only [hf, Bool.false_eq_true, if_false, Finite.truncMagnitude_eq_floor, Nat.pow_eq]
  omega

theorem le_iff_unpack (x y : Float) : x ≤ y ↔ x.toModel.unpack.le y.toModel.unpack = true := by
  change decide (x.toModel.unpack.le y.toModel.unpack = true) = true ↔ _
  rw [decide_eq_true_iff]

theorem decode_of_unit {p : Float} (hnan : p.isNaN = false) (hpos : ¬ p ≤ zero)
    (hone : ¬ ofNat 1 ≤ p) :
    ∃ f : Finite, decode p = .finite f ∧ f.negative = false ∧ 0 < f.magnitude ∧
      f.magnitude < 1 := by
  have hnan' : p.toModel.unpack.isNaN = false := hnan
  rw [le_iff_unpack, unpack_zero] at hpos
  obtain ⟨g, hg, hgneg, hgmag, -⟩ := @ofNat_exact 1 (by norm_num)
  rw [decode_eq_ofUnpacked]
  cases hu : p.toModel.unpack with
  | notANumber => rw [hu] at hnan'; cases hnan'
  | infinity s =>
    cases s with
    | positive =>
      -- one is below the positive infinity
      obtain ⟨hm, hone'⟩ := (unpack_of_decode hg hgneg).resolve_left (fun h => by
        simp [Finite.magnitude, h.1] at hgmag)
      rw [le_iff_unpack, hu, hone'] at hone
      exact absurd rfl hone
    | negative => rw [hu] at hpos; exact absurd rfl hpos
  | zero s => rw [hu] at hpos; cases s <;> exact absurd rfl hpos
  | finite s m e hm =>
    cases s with
    | negative => rw [hu] at hpos; exact absurd rfl hpos
    | positive =>
      have hp : decode p = .finite ⟨false, m, e⟩ := by rw [decode_eq_ofUnpacked, hu]; rfl
      refine ⟨⟨false, m, e⟩, rfl, rfl, by unfold Finite.magnitude; positivity, ?_⟩
      rw [le_iff_magnitude hg hp hgneg rfl, hgmag] at hone
      simpa using hone

end OlapCalc.Binary64
