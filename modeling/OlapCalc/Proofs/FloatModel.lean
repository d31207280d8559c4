import Mathlib
import OlapCalc.Numeric.Binary64

/-!
The bit-level reading of floats against the logical model of `Float`.

`Binary64.decode` reads a float's word with natural-number arithmetic; the logical model of
`Float` unpacks the same word into an `UnpackedFloat` and computes on that. The two readings
agree (`decode_eq_ofUnpacked`). Every unpacked word is in the canonical form of the binary64
format (`canonical_unpack`), and packing a canonical value and unpacking it again gives it back
(`unpack_pack`). From these follow what the number formatting needs: negation flips the decoded
sign, a value is below zero or equal to it as its decoded sign and significand say, and a product
of two non-negative values carries no negative sign.
-/

namespace OlapCalc.Binary64

open Float.Model Float.Model.UnpackedFloat

/-- What an unpacked float decodes to: a zero is the finite value with significand `0`. -/
def Decoded.ofUnpacked : UnpackedFloat → Decoded
  | .notANumber => .nan
  | .infinity s => .infinity (s == .negative)
  | .zero s => .finite ⟨s == .negative, 0, -1074⟩
  | .finite s m e _ => .finite ⟨s == .negative, m, e⟩

/-- The magnitude of a finite value, `significand * 2 ^ exponent`. -/
def Finite.magnitude (f : Finite) : ℚ := f.significand * (2 : ℚ) ^ f.exponent

theorem Finite.exact_spec (f : Finite) :
    0 < f.exact.2 ∧ (f.exact.1 : ℚ) / f.exact.2 = f.magnitude := by
  unfold Finite.exact Finite.magnitude
  split_ifs with he
  · refine ⟨Nat.one_pos, ?_⟩
    have h2 : (2 : ℚ) ^ f.exponent = (2 : ℚ) ^ f.exponent.toNat := by
      rw [← zpow_natCast, Int.toNat_of_nonneg he]
    rw [h2]
    simp [Nat.pow_eq]
  · refine ⟨Nat.two_pow_pos _, ?_⟩
    have h2 : (2 : ℚ) ^ f.exponent = ((2 : ℚ) ^ (-f.exponent).toNat)⁻¹ := by
      rw [← zpow_natCast, Int.toNat_of_nonneg (by omega), zpow_neg, inv_inv]
    rw [h2]
    simp [Nat.pow_eq, div_eq_mul_inv]

theorem decode_zero : decode zero = .finite ⟨false, 0, -1074⟩ := rfl

/-- The unpacked forms a binary64 word can take. -/
def Canonical : UnpackedFloat → Prop
  | .finite _ m e _ => m < 2 ^ 53 ∧ -1074 ≤ e ∧ e ≤ 971 ∧ (2 ^ 52 ≤ m ∨ e = -1074)
  | _ => True

theorem toNat_one_append (m : BitVec 52) : (1#1 ++ m).toNat = 2 ^ 52 + m.toNat := by
  rw [BitVec.toNat_append, ← Nat.shiftLeft_add_eq_or_of_lt m.isLt, Nat.shiftLeft_eq]
  simp

theorem toNat_packComponents (s : Sign) (e : BitVec 11) (m : BitVec 52) :
    (packComponents Format.binary64 s e m).toNat = s.toBitVec.toNat * 2 ^ 63 + e.toNat * 2 ^ 52 + m.toNat := by
  simp only [packComponents, BitVec.toNat_append]
  rw [← Nat.shiftLeft_add_eq_or_of_lt m.isLt, ← Nat.shiftLeft_add_eq_or_of_lt e.isLt]
  simp only [Nat.shiftLeft_eq]
  ring

@[simp] theorem unpackSign_packComponents (s : Sign) (e : BitVec 11) (m : BitVec 52) :
    unpackSign (packComponents Format.binary64 s e m) = s.toBitVec := by
  apply BitVec.eq_of_toNat_eq
  have hs : s.toBitVec.toNat < 2 := s.toBitVec.isLt
  simp only [unpackSign, BitVec.toNat_cast, BitVec.extractLsb_toNat, toNat_packComponents,
    Nat.shiftRight_eq_div_pow]
  have he := e.isLt
  have hm := m.isLt
  omega

@[simp] theorem ofBitVec_toBitVec (s : Sign) : Sign.ofBitVec s.toBitVec = s := by
  cases s <;> rfl

theorem finite_eq {s : Sign} {m m' : Nat} {e e' : Int} {h : 0 < m} {h' : 0 < m'}
    (hm : m = m') (he : e = e') : UnpackedFloat.finite s m e h = .finite s m' e' h' := by
  subst hm he
  rfl

section Fields

variable (b : BitVec 64)

theorem toNat_unpackMantissa :
    (@unpackMantissa Format.binary64 b).toNat = b.toNat % 2 ^ 52 := by
  simp [unpackMantissa]

theorem toNat_unpackExponent :
    (@unpackExponent Format.binary64 b).toNat = b.toNat / 2 ^ 52 % 2 ^ 11 := by
  simp [unpackExponent, Nat.shiftRight_eq_div_pow]

theorem ofBitVec_unpackSign :
    Sign.ofBitVec (@unpackSign Format.binary64 b) =
      if b.toNat / 2 ^ 63 % 2 = 1 then .negative else .positive := by
  have h : (@unpackSign Format.binary64 b).toNat = b.toNat / 2 ^ 63 % 2 := by
    simp [unpackSign, Nat.shiftRight_eq_div_pow]
  simp only [Sign.ofBitVec, ← BitVec.toNat_inj, h, BitVec.toNat_ofNat]
  split_ifs <;> simp_all

theorem unpack_eq :
    unpack Format.binary64 b =
      if b.toNat / 2 ^ 52 % 2 ^ 11 = 2047 then
        if b.toNat % 2 ^ 52 = 0 then
          .infinity (if b.toNat / 2 ^ 63 % 2 = 1 then .negative else .positive)
        else .notANumber
      else if b.toNat / 2 ^ 52 % 2 ^ 11 = 0 then
        if h : b.toNat % 2 ^ 52 = 0 then
          .zero (if b.toNat / 2 ^ 63 % 2 = 1 then .negative else .positive)
        else .finite (if b.toNat / 2 ^ 63 % 2 = 1 then .negative else .positive)
          (b.toNat % 2 ^ 52) (-1074) (Nat.pos_of_ne_zero h)
      else .finite (if b.toNat / 2 ^ 63 % 2 = 1 then .negative else .positive)
        (2 ^ 52 + b.toNat % 2 ^ 52) ((b.toNat / 2 ^ 52 % 2 ^ 11 : Nat) - 1075) (by omega) := by
  have hE1 : @unpackExponent Format.binary64 b = -1#11 ↔
      b.toNat / 2 ^ 52 % 2 ^ 11 = 2047 := by
    rw [← BitVec.toNat_inj, toNat_unpackExponent]
    simp
  have hE0 : @unpackExponent Format.binary64 b = 0#11 ↔
      b.toNat / 2 ^ 52 % 2 ^ 11 = 0 := by
    rw [← BitVec.toNat_inj, toNat_unpackExponent]
    simp
  have hM0 : @unpackMantissa Format.binary64 b = 0#52 ↔ b.toNat % 2 ^ 52 = 0 := by
    rw [← BitVec.toNat_inj, toNat_unpackMantissa]
    simp
  simp only [UnpackedFloat.unpack, hE1, hE0, hM0, ofBitVec_unpackSign, toNat_one_append,
    toNat_unpackMantissa, toNat_unpackExponent, Format.exponentBias]
  have hbias : (((2 ^ (11 - 1) - 1 : Nat) : Int) + ((52 : Nat) : Int)) = 1075 := by norm_num
  rw [hbias]
  generalize (if b.toNat / 2 ^ 63 % 2 = 1 then Sign.negative else Sign.positive) = s
  split_ifs
  · rfl
  · rfl
  · rfl
  · -- only the subnormal exponent differs in form
    exact finite_eq rfl (by omega)
  · rfl

end Fields

theorem pack_finite (s : Sign) (m : Nat) (e : Int) (hm : 0 < m) :
    pack Format.binary64 (.finite s m e hm) =
      if 2048 ≤ (e + 1023 + 52).toNat + 1 then packedInfinity Format.binary64 s
      else if m.log2 + 1 = 53 then
        packComponents Format.binary64 s (BitVec.ofNat 11 (e + 1023 + 52).toNat) (BitVec.ofNat 52 m)
      else packComponents Format.binary64 s 0#11 (BitVec.ofNat 52 m) := by
  simp only [UnpackedFloat.pack, Format.exponentBias, Format.mantissaBits]
  norm_num

theorem unpack_packComponents (s : Sign) (e : BitVec 11) (m : BitVec 52)
    (he : e.toNat ≠ 2047) (he0 : e.toNat ≠ 0) :
    unpack Format.binary64 (packComponents Format.binary64 s e m) =
      .finite s (2 ^ 52 + m.toNat) (e.toNat - 1075) (by omega) := by
  have h1 : e ≠ -1#11 := fun h => he (by simp [h])
  have h0 : e ≠ 0#11 := fun h => he0 (by simp [h])
  simp only [UnpackedFloat.unpack, unpackMantissa_packComponents, unpackExponent_packComponents,
    unpackSign_packComponents, ofBitVec_toBitVec, h1, h0, if_false, toNat_one_append,
    Format.exponentBias]
  norm_num

theorem unpack_packComponents_zero (s : Sign) (m : BitVec 52) (hm : m.toNat ≠ 0) :
    unpack Format.binary64 (packComponents Format.binary64 s 0#11 m) =
      .finite s m.toNat (-1074) (by omega) := by
  have hm' : m ≠ 0#52 := fun h => hm (by simp [h])
  simp only [UnpackedFloat.unpack, unpackMantissa_packComponents, unpackExponent_packComponents,
    unpackSign_packComponents, ofBitVec_toBitVec, hm', Format.exponentBias]
  norm_num

theorem unpack_pack {u : UnpackedFloat} (hu : Canonical u) :
    unpack Format.binary64 (pack Format.binary64 u) = u := by
  cases u with
  | notANumber => rfl
  | infinity s => cases s <;> rfl
  | zero s => cases s <;> rfl
  | finite s m e hm =>
    obtain ⟨hm53, hlo, hhi, hnorm⟩ := hu
    have hlog : m.log2 < 53 := (Nat.log2_lt hm.ne').2 hm53
    rw [pack_finite, if_neg (by omega)]
    by_cases hn : 2 ^ 52 ≤ m
    · -- a normal value: the biased exponent field and the stored fraction
      have hlog' : m.log2 = 52 := by
        have := (Nat.le_log2 hm.ne').2 hn
        omega
      have hfield : (BitVec.ofNat 11 (e + 1023 + 52).toNat).toNat = (e + 1075).toNat := by
        rw [BitVec.toNat_ofNat, Nat.mod_eq_of_lt (by omega)]
        omega
      have hfrac : (BitVec.ofNat 52 m).toNat = m - 2 ^ 52 := by
        rw [BitVec.toNat_ofNat]
        omega
      rw [if_pos (by omega), unpack_packComponents _ _ _ (by omega) (by omega)]
      simp only [hfield, hfrac]
      exact finite_eq (by omega) (by omega)
    · -- a subnormal value: the exponent field is zero
      have he : e = -1074 := hnorm.resolve_left hn
      have hfrac : (BitVec.ofNat 52 m).toNat = m := by
        rw [BitVec.toNat_ofNat]
        omega
      have hlog' : m.log2 < 52 := (Nat.log2_lt hm.ne').2 (by omega)
      rw [if_neg (by omega), unpack_packComponents_zero _ _ (by omega)]
      simp only [hfrac, he]

theorem decode_eq_ofUnpacked (x : Float) : decode x = Decoded.ofUnpacked x.toModel.unpack := by
  have hN : x.toBits.toNat = x.toModel.toBits.toBitVec.toNat := rfl
  rw [Float.Model.unpack, unpack_eq, decode, hN]
  simp only [Nat.pow_eq, beq_iff_eq]
  split_ifs <;> simp_all [Decoded.ofUnpacked, Nat.add_comm]

theorem canonical_unpack (b : BitVec 64) : Canonical (unpack Format.binary64 b) := by
  have hb := b.isLt
  rw [unpack_eq]
  split_ifs <;> simp only [Canonical]
  all_goals norm_num at *
  all_goals omega

theorem canonical_neg {u : UnpackedFloat} (h : Canonical u) : Canonical u.neg := by
  cases u <;> simp_all [UnpackedFloat.neg, Canonical]

theorem unpack_neg (x : Float) : (-x).toModel.unpack = x.toModel.unpack.neg :=
  unpack_pack (canonical_neg (canonical_unpack _))

theorem decode_neg {x : Float} {f : Finite} (h : decode x = .finite f) :
    decode (-x) = .finite { f with negative := !f.negative } := by
  rw [decode_eq_ofUnpacked] at h ⊢
  rw [unpack_neg]
  cases hu : x.toModel.unpack with
  | notANumber => simp [hu, Decoded.ofUnpacked] at h
  | infinity s => simp [hu, Decoded.ofUnpacked] at h
  | zero s =>
    simp only [hu, Decoded.ofUnpacked, Decoded.finite.injEq] at h
    subst h
    cases s <;> rfl
  | finite s m e hm =>
    simp only [hu, Decoded.ofUnpacked, Decoded.finite.injEq] at h
    subst h
    cases s <;> rfl

theorem unpack_zero : Binary64.zero.toModel.unpack = .zero .positive := rfl



theorem lt_iff_unpack (x y : Float) : x < y ↔ x.toModel.unpack.lt y.toModel.unpack = true := by
  change decide (x.toModel.lt y.toModel = true) = true ↔ _
  rw [decide_eq_true_iff]
  rfl

theorem beq_eq_unpack (x y : Float) : (x == y) = x.toModel.unpack.beq y.toModel.unpack := rfl

theorem lt_zero_iff {x : Float} {f : Finite} (h : decode x = .finite f) :
    x < Binary64.zero ↔ f.negative = true ∧ f.significand ≠ 0 := by
  rw [lt_iff_unpack, unpack_zero]
  rw [decode_eq_ofUnpacked] at h
  cases hu : x.toModel.unpack with
  | notANumber => simp [hu, Decoded.ofUnpacked] at h
  | infinity s => simp [hu, Decoded.ofUnpacked] at h
  | zero s =>
    simp only [hu, Decoded.ofUnpacked, Decoded.finite.injEq] at h
    subst h
    cases s <;> decide
  | finite s m e hm =>
    simp only [hu, Decoded.ofUnpacked, Decoded.finite.injEq] at h
    subst h
    cases s <;> simp [UnpackedFloat.lt, UnpackedFloat.compare, hm.ne']

theorem beq_zero_eq {x : Float} {f : Finite} (h : decode x = .finite f) :
    (x == Binary64.zero) = (f.significand == 0) := by
  rw [beq_eq_unpack, unpack_zero]
  rw [decode_eq_ofUnpacked] at h
  cases hu : x.toModel.unpack with
  | notANumber => simp [hu, Decoded.ofUnpacked] at h
  | infinity s => simp [hu, Decoded.ofUnpacked] at h
  | zero s =>
    simp only [hu, Decoded.ofUnpacked, Decoded.finite.injEq] at h
    subst h
    cases s <;> decide
  | finite s m e hm =>
    simp only [hu, Decoded.ofUnpacked, Decoded.finite.injEq] at h
    subst h
    cases s <;> simp [UnpackedFloat.beq, UnpackedFloat.compare, hm.ne']

/-- Whether an unpacked value carries the negative sign; NaN packs with the positive one. -/
def negBit : UnpackedFloat → Bool
  | .notANumber => false
  | .infinity s => s == .negative
  | .zero s => s == .negative
  | .finite s _ _ _ => s == .negative

theorem negBit_of_ofUnpacked {u : UnpackedFloat} {f : Finite}
    (h : Decoded.ofUnpacked u = .finite f) : negBit u = f.negative := by
  cases u with
  | notANumber => simp [Decoded.ofUnpacked] at h
  | infinity s => simp [Decoded.ofUnpacked] at h
  | zero s =>
    simp only [Decoded.ofUnpacked, Decoded.finite.injEq] at h
    subst h
    rfl
  | finite s m e hm =>
    simp only [Decoded.ofUnpacked, Decoded.finite.injEq] at h
    subst h
    rfl

theorem negative_eq_topBit {x : Float} {f : Finite} (h : decode x = .finite f) :
    f.negative = (x.toBits.toNat / 2 ^ 63 % 2 == 1) := by
  simp only [decode, Nat.pow_eq] at h
  split_ifs at h <;> simp only [Decoded.finite.injEq] at h <;> rw [← h]

theorem topBit_packComponents (s : Sign) (e : BitVec 11) (m : BitVec 52) :
    (packComponents Format.binary64 s e m).toNat / 2 ^ 63 % 2 = s.toBitVec.toNat := by
  have hs : s.toBitVec.toNat < 2 := s.toBitVec.isLt
  have he := e.isLt
  have hm := m.isLt
  rw [toNat_packComponents]
  omega

theorem topBit_pack (u : UnpackedFloat) :
    (pack Format.binary64 u).toNat / 2 ^ 63 % 2 = (negBit u).toNat := by
  cases u with
  | notANumber => rfl
  | infinity s => cases s <;> rfl
  | zero s => cases s <;> rfl
  | finite s m e hm =>
    rw [pack_finite]
    split_ifs <;> simp only [packedInfinity, topBit_packComponents] <;> cases s <;> rfl

theorem negBit_roundWithAccuracy (s : Sign) (m : Nat) (e : Int) (a : Accuracy) :
    negBit (roundWithAccuracy Format.binary64 s m e a) = (s == .negative) := by
  simp only [roundWithAccuracy]
  split <;> rfl

theorem sign_mul_ne_negative {s t : Sign} (hs : s ≠ .negative) (ht : t ≠ .negative) :
    s * t ≠ .negative := by
  cases s with
  | negative => exact absurd rfl hs
  | positive =>
    cases t with
    | negative => exact absurd rfl ht
    | positive => intro h; cases h

theorem negBit_mul {u v : UnpackedFloat} (hu : negBit u = false) (hv : negBit v = false) :
    negBit (UnpackedFloat.mul Format.binary64 u v) = false := by
  cases u <;> cases v <;> simp only [UnpackedFloat.mul]
  case finite.finite =>
    rw [negBit_roundWithAccuracy]
    simp_all [negBit, sign_mul_ne_negative]
  all_goals simp_all [negBit, sign_mul_ne_negative]

theorem decode_mul_nonneg {x y : Float} {f g h : Finite} (hx : decode x = .finite f)
    (hy : decode y = .finite g) (hf : f.negative = false) (hg : g.negative = false)
    (hxy : decode (x * y) = .finite h) : h.negative = false := by
  rw [decode_eq_ofUnpacked] at hx hy
  have hbits : (x * y).toBits.toNat = (pack Format.binary64
      (UnpackedFloat.mul Format.binary64 x.toModel.unpack y.toModel.unpack)).toNat := rfl
  rw [negative_eq_topBit hxy, hbits, topBit_pack,
    negBit_mul ((negBit_of_ofUnpacked hx).trans hf) ((negBit_of_ofUnpacked hy).trans hg)]
  rfl

end OlapCalc.Binary64
