import Mathlib
import OlapCalc.Proofs.Aggregates
import OlapCalc.Proofs.ExactKernels
import OlapCalc.Proofs.FloatRounding

/-!
The percentile kernel.

The kernel sorts its values by the total order and interpolates linearly at rank `p * (n - 1)`,
clamping `p` to `[0, 1]`. Sorting by insertion keeps the values (`sortTotal_perm`) and orders
them by any key the total order compares (`sortTotal_sorted`). Over binary64 the rank is a
rounded product, yet for up to `2 ^ 53` values its floor and ceiling are valid indices
(`rank_indices_valid`). Read over the reals the kernel is the interpolation `rankValue` of the
sorted values (`percentile_real`), which lies between the smallest and the largest value, grows
with `p`, and does not depend on the order of the input.
-/

namespace OlapCalc.Stats

section Sorting

variable {α : Type} [Arith α]

theorem insertTotal_perm (x : α) (l : List α) : (insertTotal x l).Perm (x :: l) := by
  induction l with
  | nil => rfl
  | cons y rest ih =>
    rw [insertTotal]
    split
    · rfl
    · exact (ih.cons y).trans (List.Perm.swap x y rest)

theorem foldl_insertTotal_perm (xs acc : List α) :
    (xs.foldl (fun acc x => insertTotal x acc) acc).Perm (xs ++ acc) := by
  induction xs generalizing acc with
  | nil => rfl
  | cons x xs ih =>
    rw [List.foldl_cons]
    exact (ih _).trans (((insertTotal_perm x acc).append_left xs).trans List.perm_middle)

theorem sortTotal_perm (xs : List α) : (sortTotal xs).Perm xs := by
  simpa [sortTotal] using foldl_insertTotal_perm xs []

theorem length_sortTotal (xs : List α) : (sortTotal xs).length = xs.length :=
  (sortTotal_perm xs).length_eq

/-! When the total order compares by a key, insertion keeps a list sorted by that key. -/

variable {β : Type} [LinearOrder β] (key : α → β)
  (hkey : ∀ a b, Arith.before a b = decide (key a < key b))

include hkey in
theorem insertTotal_sorted (x : α) {l : List α} (hl : l.Pairwise (fun a b => key a ≤ key b)) :
    (insertTotal x l).Pairwise (fun a b => key a ≤ key b) := by
  induction l with
  | nil => exact List.pairwise_singleton _ _
  | cons y rest ih =>
    obtain ⟨hy, hrest⟩ := List.pairwise_cons.1 hl
    rw [insertTotal]
    split
    · -- `x` goes in front of a larger `y`
      rename_i hxy
      rw [hkey, decide_eq_true_eq] at hxy
      refine List.pairwise_cons.2 ⟨fun z hz => ?_, hl⟩
      rcases List.mem_cons.1 hz with rfl | hz
      · exact hxy.le
      · exact hxy.le.trans (hy z hz)
    · -- `y` stays in front: it is at most `x` and at most the rest
      rename_i hxy
      rw [hkey, decide_eq_true_eq, not_lt] at hxy
      refine List.pairwise_cons.2 ⟨fun z hz => ?_, ih hrest⟩
      rcases List.mem_cons.1 ((insertTotal_perm x rest).mem_iff.1 hz) with rfl | hz
      · exact hxy
      · exact hy z hz

include hkey in
theorem foldl_insertTotal_sorted (xs : List α) {acc : List α}
    (hacc : acc.Pairwise (fun a b => key a ≤ key b)) :
    (xs.foldl (fun acc x => insertTotal x acc) acc).Pairwise (fun a b => key a ≤ key b) := by
  induction xs generalizing acc with
  | nil => exact hacc
  | cons x xs ih => exact ih (insertTotal_sorted key hkey x hacc)

include hkey in
theorem sortTotal_sorted (xs : List α) :
    (sortTotal xs).Pairwise (fun a b => key a ≤ key b) :=
  foldl_insertTotal_sorted key hkey xs List.Pairwise.nil

end Sorting

section Ranks

variable {K : Type} [Field K] [LinearOrder K] [FloorSemiring K]

theorem ceil_eq_floor_add_one {x : K} (h0 : 0 ≤ x) (h : (⌊x⌋₊ : K) ≠ x) :
    ⌈x⌉₊ = ⌊x⌋₊ + 1 := by
  rw [Nat.ceil_eq_iff (Nat.succ_ne_zero _), Nat.succ_sub_one]
  refine ⟨lt_of_le_of_ne (Nat.floor_le h0) h, ?_⟩
  push_cast
  exact (Nat.lt_floor_add_one x).le

end Ranks

section Real

@[simp] theorem isNaN_real (x : ℝ) : Arith.isNaN x = false := rfl

@[simp] theorem le_real (x y : ℝ) : Arith.le x y = decide (x ≤ y) := rfl

@[simp] theorem toIndex_real (x : ℝ) : Arith.toIndex x = ⌊x⌋₊ := rfl

theorem before_real (x y : ℝ) : Arith.before x y = decide (id x < id y) := rfl

theorem sortTotal_sorted_real (xs : List ℝ) : (sortTotal xs).Pairwise (· ≤ ·) :=
  sortTotal_sorted id before_real xs

theorem sortTotal_eq_of_perm {xs ys : List ℝ} (h : xs.Perm ys) : sortTotal xs = sortTotal ys :=
  List.Perm.eq_of_pairwise (fun _ _ _ _ hab hba => le_antisymm hab hba)
    (sortTotal_sorted_real xs) (sortTotal_sorted_real ys)
    ((sortTotal_perm xs).trans (h.trans (sortTotal_perm ys).symm))

theorem getElem!_mono {s : List ℝ} (hs : s.Pairwise (· ≤ ·)) {i j : ℕ} (hij : i ≤ j)
    (hj : j < s.length) : s[i]! ≤ s[j]! := by
  rcases hij.lt_or_eq with hlt | rfl
  · rw [getElem!_pos s i (by omega), getElem!_pos s j hj]
    exact List.pairwise_iff_getElem.1 hs i j _ hj hlt
  · exact le_rfl

/-- Linear interpolation at the real rank `t` of a list: the value at `⌊t⌋` moved towards the
next value by the fractional part of `t`. -/
noncomputable def rankValue (s : List ℝ) (t : ℝ) : ℝ :=
  s[⌊t⌋₊]! + (s[⌊t⌋₊ + 1]! - s[⌊t⌋₊]!) * (t - ⌊t⌋₊)

@[simp] theorem rankValue_natCast (s : List ℝ) (k : ℕ) : rankValue s k = s[k]! := by
  simp [rankValue]

section Sorted

variable {s : List ℝ} (hs : s.Pairwise (· ≤ ·))

include hs in
theorem rankValue_bounds {t : ℝ} (h0 : 0 ≤ t) (ht : t < (s.length - 1 : ℕ)) :
    s[⌊t⌋₊]! ≤ rankValue s t ∧ rankValue s t ≤ s[⌊t⌋₊ + 1]! := by
  have hk : ⌊t⌋₊ < s.length - 1 := (Nat.floor_lt h0).2 ht
  have hd : 0 ≤ s[⌊t⌋₊ + 1]! - s[⌊t⌋₊]! := sub_nonneg.2 (getElem!_mono hs (by omega) (by omega))
  have hf0 : 0 ≤ t - ⌊t⌋₊ := sub_nonneg.2 (Nat.floor_le h0)
  have hf1 : t - ⌊t⌋₊ ≤ 1 := by linarith [Nat.lt_floor_add_one t]
  unfold rankValue
  constructor
  · nlinarith
  · nlinarith

include hs in
theorem rankValue_mono (hn : 0 < s.length) {t t' : ℝ} (h0 : 0 ≤ t) (htt : t ≤ t')
    (ht' : t' ≤ (s.length - 1 : ℕ)) : rankValue s t ≤ rankValue s t' := by
  rcases ht'.lt_or_eq with hlt' | heq
  · have hlt : t < (s.length - 1 : ℕ) := htt.trans_lt hlt'
    by_cases hk : ⌊t⌋₊ = ⌊t'⌋₊
    · -- one segment: the slope is not negative
      obtain ⟨hlo, hhi⟩ := rankValue_bounds hs h0 hlt
      have hd : 0 ≤ s[⌊t⌋₊ + 1]! - s[⌊t⌋₊]! := sub_nonneg.2 (hlo.trans hhi)
      unfold rankValue
      rw [← hk]
      gcongr
    · -- a later segment: through the value at the next integer
      have hlt_k : ⌊t⌋₊ < ⌊t'⌋₊ := lt_of_le_of_ne (Nat.floor_le_floor htt) hk
      have hk' : ⌊t'⌋₊ < s.length - 1 := (Nat.floor_lt (h0.trans htt)).2 hlt'
      calc rankValue s t ≤ s[⌊t⌋₊ + 1]! := (rankValue_bounds hs h0 hlt).2
        _ ≤ s[⌊t'⌋₊]! := getElem!_mono hs hlt_k (by omega)
        _ ≤ rankValue s t' := (rankValue_bounds hs (h0.trans htt) hlt').1
  · -- the last rank: the largest value
    rw [heq, rankValue_natCast]
    rcases (htt.trans ht').lt_or_eq with hlt | heq'
    · have hk : ⌊t⌋₊ < s.length - 1 := (Nat.floor_lt h0).2 hlt
      exact (rankValue_bounds hs h0 hlt).2.trans (getElem!_mono hs (by omega) (by omega))
    · rw [heq', rankValue_natCast]

end Sorted

/-- Over the reals the kernel interpolates the sorted values at the clamped rank. -/
theorem percentile_real {xs : List ℝ} (hne : xs ≠ []) (p : ℝ) :
    percentile xs p =
      some (rankValue (sortTotal xs) (max 0 (min p 1) * ((xs.length - 1 : ℕ) : ℝ))) := by
  have hlen := length_sortTotal xs
  unfold percentile
  simp only [isNaN_real, Bool.or_false, le_real, zero_real, ofNat_real, toIndex_real,
    List.size_toArray, List.getElem!_toArray, hlen, List.isEmpty_iff, hne, if_false,
    decide_eq_true_eq, Nat.cast_one]
  split_ifs with hp0 hp1 hint
  · -- at or below zero: the first value
    have h0 := rankValue_natCast (sortTotal xs) 0
    rw [Nat.cast_zero] at h0
    rw [max_eq_left (min_le_of_left_le hp0), zero_mul, h0]
  · -- at or above one: the last value
    rw [min_eq_right hp1, max_eq_right zero_le_one, one_mul, rankValue_natCast]
  · -- an integral rank: the value there, the step to the next one vanishes
    rw [min_eq_left (by linarith), max_eq_right (by linarith)]
    rw [beq_iff_eq] at hint
    rw [rankValue, sub_self, zero_mul, add_zero, sub_eq_zero.2 hint.symm, mul_zero, add_zero]
  · rw [min_eq_left (by linarith), max_eq_right (by linarith)]
    rfl

theorem rankValue_eq_floor_ceil (s : List ℝ) {t : ℝ} (h0 : 0 ≤ t) :
    rankValue s t = s[⌊t⌋₊]! + (s[⌈t⌉₊]! - s[⌊t⌋₊]!) * (t - ⌊t⌋₊) := by
  by_cases hint : (⌊t⌋₊ : ℝ) = t
  · rw [rankValue, sub_eq_zero.2 hint.symm, mul_zero, mul_zero]
  · rw [rankValue, ceil_eq_floor_add_one h0 hint]

theorem clampRank_mem (p : ℝ) (L : ℕ) : 0 ≤ max 0 (min p 1) * L ∧ max 0 (min p 1) * L ≤ L := by
  have h1 : max 0 (min p 1) ≤ 1 := max_le zero_le_one (min_le_right _ _)
  have hL : (0 : ℝ) ≤ L := Nat.cast_nonneg L
  exact ⟨mul_nonneg (le_max_left _ _) hL, by nlinarith [le_max_left (0 : ℝ) (min p 1)]⟩

theorem clampRank_mono {p q : ℝ} (h : p ≤ q) (L : ℕ) :
    max 0 (min p 1) * L ≤ max 0 (min q 1) * L :=
  mul_le_mul_of_nonneg_right (max_le_max le_rfl (min_le_min h le_rfl)) (Nat.cast_nonneg L)

section Input

variable {xs : List ℝ} (hne : xs ≠ [])

include hne in
theorem sortTotal_first_min : (sortTotal xs)[0]! ∈ xs ∧ ∀ y ∈ xs, (sortTotal xs)[0]! ≤ y := by
  have hpos : 0 < (sortTotal xs).length := by
    rw [length_sortTotal]
    exact List.length_pos_iff.2 hne
  refine ⟨?_, fun y hy => ?_⟩
  · rw [getElem!_pos (sortTotal xs) 0 hpos]
    exact (sortTotal_perm xs).subset (List.getElem_mem hpos)
  · obtain ⟨j, hj, rfl⟩ := List.getElem_of_mem ((sortTotal_perm xs).symm.subset hy)
    rw [← getElem!_pos (sortTotal xs) j hj]
    exact getElem!_mono (sortTotal_sorted_real xs) (Nat.zero_le j) hj

include hne in
theorem sortTotal_last_max :
    (sortTotal xs)[xs.length - 1]! ∈ xs ∧ ∀ y ∈ xs, y ≤ (sortTotal xs)[xs.length - 1]! := by
  have hlen := length_sortTotal xs
  have hpos : 0 < xs.length := List.length_pos_iff.2 hne
  have hlast : xs.length - 1 < (sortTotal xs).length := by omega
  refine ⟨?_, fun y hy => ?_⟩
  · rw [getElem!_pos (sortTotal xs) (xs.length - 1) hlast]
    exact (sortTotal_perm xs).subset (List.getElem_mem hlast)
  · obtain ⟨j, hj, rfl⟩ := List.getElem_of_mem ((sortTotal_perm xs).symm.subset hy)
    rw [← getElem!_pos (sortTotal xs) j hj]
    exact getElem!_mono (sortTotal_sorted_real xs) (by omega) hlast

include hne in
theorem percentile_real_bounds (p : ℝ) :
    ∃ r, percentile xs p = some r ∧ (sortTotal xs)[0]! ≤ r ∧ r ≤ (sortTotal xs)[xs.length - 1]! ∧
      (p ≤ 0 → r = (sortTotal xs)[0]!) ∧ (1 ≤ p → r = (sortTotal xs)[xs.length - 1]!) := by
  have hlen := length_sortTotal xs
  have hpos : 0 < xs.length := List.length_pos_iff.2 hne
  have hs := sortTotal_sorted_real xs
  obtain ⟨h0, hL⟩ := clampRank_mem p (xs.length - 1)
  have hL' : max 0 (min p 1) * ((xs.length - 1 : ℕ) : ℝ) ≤ ((sortTotal xs).length - 1 : ℕ) := by
    rw [hlen]
    exact hL
  have hzero := rankValue_natCast (sortTotal xs) 0
  rw [Nat.cast_zero] at hzero
  have hfirst := rankValue_mono hs (by omega) le_rfl h0 hL'
  have hlast := rankValue_mono hs (by omega) h0 hL' le_rfl
  rw [hzero] at hfirst
  rw [rankValue_natCast, hlen] at hlast
  refine ⟨_, percentile_real hne p, hfirst, hlast, fun hp => ?_, fun hp => ?_⟩
  · rw [max_eq_left (min_le_of_left_le hp), zero_mul, hzero]
  · rw [min_eq_right hp, max_eq_right zero_le_one, one_mul, rankValue_natCast]

include hne in
theorem percentile_real_mono {p q : ℝ} (hpq : p ≤ q) {r r' : ℝ} (hr : percentile xs p = some r)
    (hr' : percentile xs q = some r') : r ≤ r' := by
  rw [percentile_real hne, Option.some.injEq] at hr hr'
  subst hr hr'
  have hlen := length_sortTotal xs
  have hpos : 0 < xs.length := List.length_pos_iff.2 hne
  obtain ⟨h0, -⟩ := clampRank_mem p (xs.length - 1)
  obtain ⟨-, hL⟩ := clampRank_mem q (xs.length - 1)
  refine rankValue_mono (sortTotal_sorted_real xs) (by omega) h0 (clampRank_mono hpq _) ?_
  rw [hlen]
  exact hL

include hne in
theorem percentile_real_interior {p : ℝ} (hp0 : 0 < p) (hp1 : p < 1) :
    percentile xs p = some ((sortTotal xs)[⌊p * ((xs.length - 1 : ℕ) : ℝ)⌋₊]! +
      ((sortTotal xs)[⌈p * ((xs.length - 1 : ℕ) : ℝ)⌉₊]! -
        (sortTotal xs)[⌊p * ((xs.length - 1 : ℕ) : ℝ)⌋₊]!) *
        (p * ((xs.length - 1 : ℕ) : ℝ) - ⌊p * ((xs.length - 1 : ℕ) : ℝ)⌋₊)) ∧
      ⌈p * ((xs.length - 1 : ℕ) : ℝ)⌉₊ < xs.length := by
  have hpos : 0 < xs.length := List.length_pos_iff.2 hne
  have hL : (0 : ℝ) ≤ ((xs.length - 1 : ℕ) : ℝ) := Nat.cast_nonneg _
  have hceil : ⌈p * ((xs.length - 1 : ℕ) : ℝ)⌉₊ ≤ xs.length - 1 := Nat.ceil_le.2 (by nlinarith)
  refine ⟨?_, by omega⟩
  rw [percentile_real hne, min_eq_left hp1.le, max_eq_right hp0.le,
    rankValue_eq_floor_ceil _ (by positivity)]

end Input

theorem percentile_real_perm {xs ys : List ℝ} (h : xs.Perm ys) (p : ℝ) :
    percentile xs p = percentile ys p := by
  by_cases hne : xs = []
  · subst hne
    rw [List.Perm.nil_eq h]
  · have hne' : ys ≠ [] := fun hy => hne (List.Perm.eq_nil (hy ▸ h))
    rw [percentile_real hne, percentile_real hne', sortTotal_eq_of_perm h, h.length_eq]

end Real

section Binary

open Binary64

theorem before_float (x y : Float) : Arith.before x y = decide (totalKey x < totalKey y) := by
  change (compare (totalKey x) (totalKey y) == .lt) = _
  by_cases h : totalKey x < totalKey y
  · rw [compare_lt_iff_lt.2 h]
    simp [h]
  · have hne : compare (totalKey x) (totalKey y) ≠ .lt := by rwa [Ne, compare_lt_iff_lt]
    simp [h, hne]

theorem sortTotal_sorted_float (xs : List Float) :
    (sortTotal xs).Pairwise (fun a b => totalKey a ≤ totalKey b) :=
  sortTotal_sorted totalKey before_float xs

theorem decode_mul_ofNat_zero {x : Float} {f : Finite} (hx : decode x = .finite f)
    (hf : f.negative = false) : decode (x * ofNat 0) = .finite ⟨false, 0, -1074⟩ := by
  rw [decode_eq_ofUnpacked, unpack_mul]
  have h0 : (ofNat 0).toModel.unpack = .zero .positive := rfl
  rcases unpack_of_decode hx hf with ⟨-, hu⟩ | ⟨hm, hu⟩
  · rw [hu, h0]
    rfl
  · have hmul : Float.Model.UnpackedFloat.mul Float.Model.Format.binary64
        (.finite .positive f.significand f.exponent hm) (.zero .positive) = .zero .positive := rfl
    rw [hu, h0, hmul, @unpack_pack (.zero .positive) trivial]
    rfl

/-- The rank of a `p` strictly between zero and one over `n ≤ 2 ^ 53` values, computed as the
rounded product `p * (n - 1)`, is a non-negative value at most `n - 1`: its truncation is its
floor, the index the kernel takes above it is its ceiling, and both are valid indices. -/
theorem rank_indices_valid {n : ℕ} (hn : 0 < n) (hn' : n ≤ 2 ^ 53) {p : Float}
    (hnan : p.isNaN = false) (hpos : ¬ p ≤ zero) (hone : ¬ ofNat 1 ≤ p) :
    ∃ r : Finite, decode (p * ofNat (n - 1)) = .finite r ∧
      toNat64 (p * ofNat (n - 1)) = ⌊r.magnitude⌋₊ ∧
      (if ofNat ⌊r.magnitude⌋₊ == p * ofNat (n - 1) then ⌊r.magnitude⌋₊
        else ⌊r.magnitude⌋₊ + 1) = ⌈r.magnitude⌉₊ ∧
      ⌈r.magnitude⌉₊ < n := by
  obtain ⟨f, hf, hfneg, -, hflt⟩ := decode_of_unit hnan hpos hone
  have hL : n - 1 < 2 ^ 53 := by omega
  -- the rounded rank stays at most the last index
  obtain ⟨r, hr, hrneg, hrle⟩ : ∃ r : Finite, decode (p * ofNat (n - 1)) = .finite r ∧
      r.negative = false ∧ r.magnitude ≤ (n - 1 : ℕ) := by
    rcases Nat.eq_zero_or_pos (n - 1) with h0 | h0
    · rw [h0]
      exact ⟨_, decode_mul_ofNat_zero hf hfneg, rfl, by simp [Finite.magnitude]⟩
    · obtain ⟨g, hg, hgneg, hgmag, hg52⟩ := ofNat_exact hL
      apply decode_mul_le hf hg hfneg hgneg (hg52 h0) hL
      have hpos' : (0 : ℚ) < (n - 1 : ℕ) := by exact_mod_cast h0
      rw [hgmag]
      nlinarith
  have hr0 : 0 ≤ r.magnitude := by unfold Finite.magnitude; positivity
  have hrlt : r.magnitude < 2 ^ 53 := lt_of_le_of_lt hrle (by exact_mod_cast hL)
  have hceil : ⌈r.magnitude⌉₊ ≤ n - 1 := Nat.ceil_le.2 hrle
  have hfloor : ⌊r.magnitude⌋₊ ≤ n - 1 := (Nat.floor_le_ceil _).trans hceil
  obtain ⟨g, hg, hgneg, hgmag, -⟩ := ofNat_exact (show ⌊r.magnitude⌋₊ < 2 ^ 53 by omega)
  refine ⟨r, hr, toNat64_eq_floor hr hrneg hrlt, ?_, by omega⟩
  -- the index above: the rank itself when it is whole, else the next one
  by_cases hint : (⌊r.magnitude⌋₊ : ℚ) = r.magnitude
  · have hbeq : (ofNat ⌊r.magnitude⌋₊ == p * ofNat (n - 1)) = true :=
      (beq_iff_magnitude hg hr hgneg hrneg).2 (hgmag.trans hint)
    rw [if_pos hbeq]
    conv_rhs => rw [← hint, Nat.ceil_natCast]
  · have hbeq : ¬ (ofNat ⌊r.magnitude⌋₊ == p * ofNat (n - 1)) = true := fun h =>
      hint (hgmag.symm.trans ((beq_iff_magnitude hg hr hgneg hrneg).1 h))
    rw [if_neg hbeq, ceil_eq_floor_add_one hr0 hint]

@[simp] theorem isNaN_float (x : Float) : Arith.isNaN x = x.isNaN := rfl

@[simp] theorem le_float (x y : Float) : Arith.le x y = decide (x ≤ y) := rfl

@[simp] theorem zero_float : (Arith.zero : Float) = Binary64.zero := rfl

@[simp] theorem ofNat_float (n : ℕ) : (Arith.ofNat n : Float) = Binary64.ofNat n := rfl

@[simp] theorem toIndex_float (x : Float) : Arith.toIndex x = toNat64 x := rfl

theorem percentile_float_none (xs : List Float) (p : Float) (h : xs = [] ∨ p.isNaN = true) :
    percentile xs p = none := by
  unfold percentile
  rcases h with rfl | h
  · rfl
  · simp only [isNaN_float, h, Bool.or_true, if_true]

section Nonempty

variable {xs : List Float} (hne : xs ≠ []) {p : Float} (hnan : p.isNaN = false)

include hne hnan

theorem percentile_float_low (hp : p ≤ zero) : percentile xs p = some (sortTotal xs)[0]! := by
  unfold percentile
  simp only [hne, hnan, hp, List.isEmpty_iff, Bool.or_false, if_false, isNaN_float, le_float,
    zero_float, decide_true, if_true, List.getElem!_toArray]

theorem percentile_float_high (hp0 : ¬ p ≤ zero) (hp1 : ofNat 1 ≤ p) :
    percentile xs p = some (sortTotal xs)[xs.length - 1]! := by
  unfold percentile
  simp only [hne, hnan, hp0, hp1, List.isEmpty_iff, Bool.or_false, if_false, isNaN_float,
    le_float, zero_float, ofNat_float, decide_true, decide_false, if_true, Bool.false_eq_true,
    List.size_toArray, List.getElem!_toArray, length_sortTotal]

theorem percentile_float_interior (hn : xs.length ≤ 2 ^ 53) (hp0 : ¬ p ≤ zero)
    (hp1 : ¬ ofNat 1 ≤ p) :
    ∃ r : Finite, decode (p * ofNat (xs.length - 1)) = .finite r ∧ ⌈r.magnitude⌉₊ < xs.length ∧
      percentile xs p = some ((sortTotal xs)[⌊r.magnitude⌋₊]! +
        ((sortTotal xs)[⌈r.magnitude⌉₊]! - (sortTotal xs)[⌊r.magnitude⌋₊]!) *
          (p * ofNat (xs.length - 1) - ofNat ⌊r.magnitude⌋₊)) := by
  obtain ⟨r, hr, hlo, hhi, hlt⟩ :=
    rank_indices_valid (List.length_pos_iff.2 hne) hn hnan hp0 hp1
  refine ⟨r, hr, hlt, ?_⟩
  unfold percentile
  simp only [hne, hnan, hp0, hp1, List.isEmpty_iff, Bool.or_false, if_false, isNaN_float,
    le_float, zero_float, ofNat_float, toIndex_float, decide_false, Bool.false_eq_true,
    List.size_toArray, List.getElem!_toArray, length_sortTotal]
  rw [hlo, hhi]

end Nonempty

end Binary

theorem decode_half : Binary64.decode (Binary64.ofDecimal false 5 (-1)) = .finite ⟨false, 2 ^ 52, -53⟩ :=
  rfl

/-- The percentile kernel and the aggregates built on it. Over binary64 it gives no value without
values or for a NaN share; otherwise it sorts the values by the total order, gives the first at or
below zero and the last at or above one, and in between interpolates between the values at the
floor and the ceiling of the rounded rank `p * (n - 1)`, which are valid indices for every share
and every count up to `2 ^ 53`. Read over the reals its result lies between the smallest and the
largest value, is the smallest at or below zero and the largest at or above one, interpolates at
the floor and ceiling of the rank, grows with the share and ignores the order of the input. The
median asks for the share one half, and a percentile for its percent over a hundred. -/
theorem percentile_interpolates_within_range :
    (∀ (xs : List Float) (p : Float), xs = [] ∨ p.isNaN = true → percentile xs p = none) ∧
    (∀ (xs : List Float) (p : Float), xs ≠ [] → p.isNaN = false → xs.length ≤ 2 ^ 53 →
      (sortTotal xs).Perm xs ∧
      (sortTotal xs).Pairwise (fun a b => Binary64.totalKey a ≤ Binary64.totalKey b) ∧
      (p ≤ Binary64.zero → percentile xs p = some (sortTotal xs)[0]!) ∧
      (¬ p ≤ Binary64.zero → Binary64.ofNat 1 ≤ p →
        percentile xs p = some (sortTotal xs)[xs.length - 1]!) ∧
      (¬ p ≤ Binary64.zero → ¬ Binary64.ofNat 1 ≤ p →
        ∃ r : Binary64.Finite, Binary64.decode (p * Binary64.ofNat (xs.length - 1)) = .finite r ∧
          ⌈r.magnitude⌉₊ < xs.length ∧
          percentile xs p = some ((sortTotal xs)[⌊r.magnitude⌋₊]! +
            ((sortTotal xs)[⌈r.magnitude⌉₊]! - (sortTotal xs)[⌊r.magnitude⌋₊]!) *
              (p * Binary64.ofNat (xs.length - 1) - Binary64.ofNat ⌊r.magnitude⌋₊)))) ∧
    (∀ p : ℝ, percentile ([] : List ℝ) p = none) ∧
    (∀ xs : List ℝ, xs ≠ [] → (sortTotal xs)[0]! ∈ xs ∧ (sortTotal xs)[xs.length - 1]! ∈ xs ∧
      ∀ y ∈ xs, (sortTotal xs)[0]! ≤ y ∧ y ≤ (sortTotal xs)[xs.length - 1]!) ∧
    (∀ (xs : List ℝ) (p : ℝ), xs ≠ [] → ∃ r, percentile xs p = some r ∧
      (sortTotal xs)[0]! ≤ r ∧ r ≤ (sortTotal xs)[xs.length - 1]! ∧
      (p ≤ 0 → r = (sortTotal xs)[0]!) ∧ (1 ≤ p → r = (sortTotal xs)[xs.length - 1]!)) ∧
    (∀ (xs : List ℝ) (p : ℝ), xs ≠ [] → 0 < p → p < 1 →
      percentile xs p = some ((sortTotal xs)[⌊p * ((xs.length - 1 : ℕ) : ℝ)⌋₊]! +
        ((sortTotal xs)[⌈p * ((xs.length - 1 : ℕ) : ℝ)⌉₊]! -
          (sortTotal xs)[⌊p * ((xs.length - 1 : ℕ) : ℝ)⌋₊]!) *
          (p * ((xs.length - 1 : ℕ) : ℝ) - ⌊p * ((xs.length - 1 : ℕ) : ℝ)⌋₊)) ∧
        ⌈p * ((xs.length - 1 : ℕ) : ℝ)⌉₊ < xs.length) ∧
    (∀ (xs : List ℝ) (p q r r' : ℝ), p ≤ q → percentile xs p = some r →
      percentile xs q = some r' → r ≤ r') ∧
    (∀ (xs ys : List ℝ), xs.Perm ys → ∀ p : ℝ, percentile xs p = percentile ys p) ∧
    Binary64.decode (Binary64.ofDecimal false 5 (-1)) = .finite ⟨false, 2 ^ 52, -53⟩ ∧
    (∀ (env : Env) (k : ℕ) (set : SetArg) (v : Option Node),
      (env.eval (k + 2) (.percentile set v none) : EvalOn Value) =
        (fun vs => Value.ofOptFloat
          (percentile vs.reduceOption (Binary64.ofDecimal false 5 (-1)))) <$>
          env.readings k set v) ∧
    (∀ (env : Env) (k : ℕ) (set : SetArg) (v : Option Node) (p : Node),
      (env.eval (k + 2) (.percentile set v (some p)) : EvalOn Value) =
        env.numberAt (k + 1) (some p) >>= fun pct => pct.elim (pure .null) fun x =>
          (fun vs => Value.ofOptFloat
            (percentile vs.reduceOption (x / Binary64.ofNat 100))) <$> env.readings k set v) := by
  refine ⟨percentile_float_none, fun xs p hne hnan hn => ?_, fun _ => rfl, fun xs hne => ?_,
    fun xs p hne => percentile_real_bounds hne p,
    fun xs p hne hp0 hp1 => percentile_real_interior hne hp0 hp1, fun xs p q r r' hpq hr hr' => ?_,
    fun xs ys h p => percentile_real_perm h p, decode_half, Env.eval_median,
    Env.eval_percentile⟩
  · exact ⟨sortTotal_perm xs, sortTotal_sorted_float xs, percentile_float_low hne hnan,
      percentile_float_high hne hnan, percentile_float_interior hne hnan hn⟩
  · obtain ⟨hmin, hminle⟩ := sortTotal_first_min hne
    obtain ⟨hmax, hmaxle⟩ := sortTotal_last_max hne
    exact ⟨hmin, hmax, fun y hy => ⟨hminle y hy, hmaxle y hy⟩⟩
  · -- without values there is no percentile to compare
    rcases eq_or_ne xs [] with rfl | hne
    · cases hr
    · exact percentile_real_mono hne hpq hr hr'

end OlapCalc.Stats
