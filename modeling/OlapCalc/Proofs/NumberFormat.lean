import Mathlib
import OlapCalc.Format.Pattern
import OlapCalc.Proofs.FloatModel

/-!
Number format patterns, read as what they print.

A section that is not general prints a non-negative value as its leading text, the value's
digits and its trailing text (`FormatSection.Shows`). The digits are the value rounded half to
even to the section's maximum number of fraction digits; optional fraction zeros are dropped down
to the required ones, leading integer zeros down to the required ones, and when the section
groups a comma stands before every group of three integer digits (`GroupedByThree`). The
formatter picks the zero section for a zero of either sign, the negative section for a negative
value and otherwise the positive one. Without a negative section a negative value is printed by
the positive section with a minus sign in front exactly when the text shows a nonzero digit,
which it does when the rounded value is nonzero or the section's literal text holds one
(`FormatSection.showsNonzero_iff`).
-/

namespace OlapCalc

/-- `q` is `x` rounded to an integer, half-way cases to the even neighbour. -/
def IsRoundHalfEven (q : ℕ) (x : ℚ) : Prop := |x - q| < 1 / 2 ∨ (|x - q| = 1 / 2 ∧ Even q)

theorem isRoundHalfEven_div (s den : ℕ) (hd : 0 < den) :
    IsRoundHalfEven (if 2 * (s % den) > den || (2 * (s % den) == den && s / den % 2 == 1) then
      s / den + 1 else s / den) ((s : ℚ) / den) := by
  have hden : (0 : ℚ) < den := by exact_mod_cast hd
  set a := s / den
  set r := s % den
  -- the value is the quotient plus the remainder's share
  have hsplit : (s : ℚ) / den = a + (r : ℚ) / den := by
    rw [div_eq_iff hden.ne', add_mul, div_mul_cancel₀ _ hden.ne']
    exact_mod_cast (Nat.div_add_mod' s den).symm
  have ht0 : 0 ≤ (r : ℚ) / den := by positivity
  unfold IsRoundHalfEven
  rw [hsplit]
  rcases lt_trichotomy (2 * r) den with hlt | heq | hgt
  · -- below the half: round down
    have hcond : ¬ (2 * r > den || (2 * r == den && a % 2 == 1)) = true := by
      simp only [Bool.or_eq_true, decide_eq_true_eq, Bool.and_eq_true, beq_iff_eq]
      omega
    rw [if_neg hcond, add_sub_cancel_left, abs_of_nonneg ht0]
    left
    rw [div_lt_iff₀ hden]
    have : ((2 * r : ℕ) : ℚ) < den := by exact_mod_cast hlt
    push_cast at this
    linarith
  · -- exactly half-way: to the even neighbour
    have hhalf : (r : ℚ) / den = 1 / 2 := by
      rw [div_eq_iff hden.ne']
      have : ((2 * r : ℕ) : ℚ) = den := by exact_mod_cast heq
      push_cast at this
      linarith
    right
    by_cases hodd : a % 2 = 1
    · have hcond : (2 * r > den || (2 * r == den && a % 2 == 1)) = true := by
        simp only [Bool.or_eq_true, decide_eq_true_eq, Bool.and_eq_true, beq_iff_eq]
        omega
      rw [if_pos hcond]
      refine ⟨?_, ?_⟩
      · push_cast
        rw [hhalf]
        norm_num [abs_of_neg]
      · exact Nat.even_add_one.2 (Nat.not_even_iff_odd.2 (Nat.odd_iff.2 hodd))
    · have hcond : ¬ (2 * r > den || (2 * r == den && a % 2 == 1)) = true := by
        simp only [Bool.or_eq_true, decide_eq_true_eq, Bool.and_eq_true, beq_iff_eq]
        omega
      rw [if_neg hcond, add_sub_cancel_left, hhalf]
      exact ⟨by norm_num, Nat.even_iff.2 (by omega)⟩
  · -- above the half: round up
    have hcond : (2 * r > den || (2 * r == den && a % 2 == 1)) = true := by
      simp only [Bool.or_eq_true, decide_eq_true_eq]
      omega
    rw [if_pos hcond]
    left
    have hlt1 : (r : ℚ) / den < 1 := by
      rw [div_lt_one hden]
      exact_mod_cast Nat.mod_lt s hd
    have hgt' : 1 / 2 < (r : ℚ) / den := by
      rw [lt_div_iff₀ hden]
      have : (den : ℚ) < ((2 * r : ℕ) : ℚ) := by exact_mod_cast hgt
      push_cast at this
      linarith
    push_cast
    rw [abs_of_neg (by linarith)]
    linarith

namespace Binary64

theorem negative_eq_signBit {x : Float} {f : Finite} (h : decode x = .finite f) :
    f.negative = signBit x := by
  rw [negative_eq_topBit h, signBit, Nat.pow_eq]

theorem not_lt_zero_of_beq {x : Float} {f : Finite} (h : decode x = .finite f)
    (hz : (x == zero) = true) : ¬ x < zero := by
  rw [beq_zero_eq h, beq_iff_eq] at hz
  rw [lt_zero_iff h]
  exact fun hlt => hlt.2 hz

theorem decode_hundred : decode (ofNat 100) = .finite ⟨false, 100 * 2 ^ 46, -46⟩ := rfl

end Binary64

namespace FloatText

open Binary64

theorem fixed_of_nonneg {x : Float} {f : Binary64.Finite} (hx : decode x = .finite f)
    (hneg : f.negative = false) (k : Nat) :
    ∃ q, IsRoundHalfEven q (f.magnitude * 10 ^ k) ∧ fixed x k = withPoint q k := by
  obtain ⟨hden, hval⟩ := f.exact_spec
  have hsc : f.magnitude * 10 ^ k = ((f.exact.1 * Nat.pow 10 k : ℕ) : ℚ) / f.exact.2 := by
    rw [← hval]
    push_cast [Nat.pow_eq]
    ring
  refine ⟨_, hsc ▸ isRoundHalfEven_div _ _ hden, ?_⟩
  simp only [fixed, hx, hneg]
  rfl

theorem withPoint_toList (q k : Nat) :
    ∃ ip fp : List Char, (withPoint q k).toList = ip ++ (if k = 0 then [] else '.' :: fp) ∧
      fp.length = k ∧ ip ≠ [] ∧ (∀ c ∈ ip ++ fp, c.isDigit) ∧
      Nat.ofDigitChars 10 (ip ++ fp) 0 = q := by
  set ds := Nat.toDigits 10 q with hds
  -- the zero-padded digits, at least `k + 1` of them
  set P := (if ds.length < k + 1 then List.replicate (k + 1 - ds.length) '0' else []) ++ ds
    with hP
  have hPlen : k + 1 ≤ P.length := by
    simp only [hP, List.length_append]
    split_ifs <;> simp <;> omega
  have hPdig : ∀ c ∈ P, c.isDigit := by
    intro c hc
    simp only [hP, List.mem_append] at hc
    rcases hc with hc | hc
    · split_ifs at hc
      · rw [(List.mem_replicate.1 hc).2]
        decide
      · simp at hc
    · exact Nat.isDigit_of_mem_toDigits (by decide) (by decide) hc
  have hPval : Nat.ofDigitChars 10 P 0 = q := by
    simp only [hP, Nat.ofDigitChars_append]
    split_ifs <;> simp [hds]
  have htext : (if (Nat.repr q).length < k + 1 then zeros (k + 1 - (Nat.repr q).length) ++ Nat.repr q
      else Nat.repr q).toList = P := by
    have hlen : (Nat.repr q).length = ds.length := by
      rw [← String.length_toList, Nat.toList_repr]
    rw [hlen, hP]
    split_ifs <;> simp [zeros, String.toList_append, String.toList_ofList, Nat.toList_repr, hds]
  refine ⟨P.take (P.length - k), P.drop (P.length - k), ?_, by simp; omega, ?_, ?_, ?_⟩
  · have hSlen : (if (Nat.repr q).length < k + 1 then zeros (k + 1 - (Nat.repr q).length) ++
        Nat.repr q else Nat.repr q).length = P.length := by
      rw [← String.length_toList, htext]
    simp only [withPoint]
    generalize (if (Nat.repr q).length < k + 1 then zeros (k + 1 - (Nat.repr q).length) ++
      Nat.repr q else Nat.repr q) = S at htext hSlen ⊢
    by_cases hk : k = 0
    · simp [hk, htext]
    · simp [hk, String.toList_append, String.toList_ofList, htext, hSlen]
  · intro h
    have := congrArg List.length h
    simp only [List.length_take, List.length_nil] at this
    omega
  · rw [List.take_append_drop]
    exact hPdig
  · rw [List.take_append_drop]
    exact hPval

end FloatText

/-- `g` is the digits `ds` with a comma before every group of three, counted from the right. -/
inductive GroupedByThree : List Char → List Char → Prop
  | short {ds : List Char} : ds.length ≤ 3 → GroupedByThree ds ds
  | group {g ds b : List Char} : GroupedByThree g ds → ds ≠ [] → b.length = 3 →
      GroupedByThree (g ++ ',' :: b) (ds ++ b)

theorem GroupedByThree.any_eq {g ds : List Char} (h : GroupedByThree g ds) {p : Char → Bool}
    (hp : p ',' = false) : g.any p = ds.any p := by
  induction h with
  | short _ => rfl
  | group _ _ _ ih => simp [List.any_append, ih, hp]

namespace FormatSection

theorem groupThousands_of_length_le {ds : List Char} (h : ds.length ≤ 3) :
    groupThousands ds = ds := by
  have hflat : groupThousands ds = ds.zipIdx.flatMap fun p => [p.1] := by
    unfold groupThousands
    apply List.flatMap_congr
    rintro ⟨c, i⟩ hmem
    have hi := (List.mem_zipIdx' hmem).1
    have hcond : ¬ (i > 0 && (ds.length - i) % 3 == 0) = true := by
      simp only [Bool.and_eq_true, decide_eq_true_eq, beq_iff_eq]
      omega
    simp [hcond]
  rw [hflat, ← List.map_eq_flatMap, List.zipIdx_map_fst]

theorem groupThousands_append {a b : List Char} (ha : a ≠ []) (hb : b.length = 3) :
    groupThousands (a ++ b) = groupThousands a ++ ',' :: b := by
  have hpos : 0 < a.length := List.length_pos_iff.2 ha
  obtain ⟨x, y, z, rfl⟩ := List.length_eq_three.1 hb
  unfold groupThousands
  rw [List.zipIdx_append, List.flatMap_append]
  congr 1
  · -- before the last group the commas stand where they stood, counted from the right
    apply List.flatMap_congr
    rintro ⟨c, i⟩ hmem
    have hi := (List.mem_zipIdx' hmem).1
    have hmod : ((a ++ [x, y, z]).length - i) % 3 = (a.length - i) % 3 := by
      simp only [List.length_append, List.length_cons, List.length_nil]
      omega
    simp only [hmod]
  · -- the last three digits: a comma before the first of them only
    simp [List.zipIdx_cons, hpos]

theorem groupThousands_grouped (ds : List Char) : GroupedByThree (groupThousands ds) ds := by
  by_cases h : ds.length ≤ 3
  · rw [groupThousands_of_length_le h]
    exact .short h
  · have ha : ds.take (ds.length - 3) ≠ [] := by
      intro hnil
      have := congrArg List.length hnil
      simp only [List.length_take, List.length_nil] at this
      omega
    have hb : (ds.drop (ds.length - 3)).length = 3 := by
      simp only [List.length_drop]
      omega
    have hsplit := List.take_append_drop (ds.length - 3) ds
    rw [← hsplit, groupThousands_append ha hb]
    exact .group (groupThousands_grouped _) ha hb
termination_by ds.length
decreasing_by simp only [List.length_take]; omega

theorem trimZeros_spec (cs : List Char) (keep : Nat) :
    ∃ j, cs = List.replicate j '0' ++ render.trimZeros cs keep ∧
      min keep cs.length ≤ (render.trimZeros cs keep).length ∧
      (keep < (render.trimZeros cs keep).length → (render.trimZeros cs keep).head? ≠ some '0') := by
  induction cs with
  | nil => exact ⟨0, by simp [render.trimZeros]⟩
  | cons c rest ih =>
    by_cases hc : c = '0'
    · subst hc
      by_cases hk : rest.length + 1 > keep
      · obtain ⟨j, hj, hlen, hhead⟩ := ih
        rw [render.trimZeros, if_pos hk]
        refine ⟨j + 1, ?_, ?_, hhead⟩
        · rw [List.replicate_succ, List.cons_append, ← hj]
        · simp only [List.length_cons]
          omega
      · rw [render.trimZeros, if_neg hk]
        exact ⟨0, rfl, by simp, by simp; omega⟩
    · have h : render.trimZeros (c :: rest) keep = c :: rest := by
        rw [render.trimZeros.eq_def]
        split
        · rename_i h
          cases h
          exact absurd rfl hc
        · rfl
      rw [h]
      exact ⟨0, rfl, by simp, by simp [hc]⟩

theorem ofDigitChars_dropWhile_zero (l : List Char) :
    Nat.ofDigitChars 10 (l.dropWhile (· == '0')) 0 = Nat.ofDigitChars 10 l 0 := by
  induction l with
  | nil => rfl
  | cons c rest ih =>
    by_cases hc : c = '0'
    · subst hc
      simp [Nat.ofDigitChars_cons, ih]
    · simp [hc]

theorem ofDigitChars_zeros_append (n : Nat) (l : List Char) :
    Nat.ofDigitChars 10 (List.replicate n '0' ++ l) 0 = Nat.ofDigitChars 10 l 0 := by
  simp [Nat.ofDigitChars_append]

theorem ne_point_of_isDigit {c : Char} (h : c.isDigit) : (c != '.') = true := by
  rw [bne_iff_ne]
  rintro rfl
  exact absurd h (by decide)

/-- The integer digits a section prints for the integer part `ip` of the fixed text: leading
zeros dropped, then zeros put back up to the required count. -/
def intDigits (s : FormatSection) (ip : List Char) : List Char :=
  List.replicate (s.minInt - (ip.dropWhile (· == '0')).length) '0' ++ ip.dropWhile (· == '0')

/-- The fraction digits a section prints for the fraction part `fp` of the fixed text:
trailing zeros dropped while more than the required count remain. -/
def fracDigits (s : FormatSection) (fp : List Char) : List Char :=
  (render.trimZeros fp.reverse s.minFrac).reverse

theorem render_eq {s : FormatSection} (hgen : s.general = false) {x : Float} {ip fp : List Char}
    (hfixed : (FloatText.fixed (if s.percent then x * Binary64.ofNat 100 else x) s.maxFrac).toList =
      ip ++ (if s.maxFrac = 0 then [] else '.' :: fp))
    (hip : ∀ c ∈ ip, c.isDigit) (hfp : fp.length = s.maxFrac) :
    s.render x = s.leading ++ String.ofList ((if s.grouping then groupThousands (s.intDigits ip)
      else s.intDigits ip) ++ (if s.fracDigits fp = [] then [] else '.' :: s.fracDigits fp)) ++
        s.trailing := by
  have hpos : ∀ c ∈ ip, (c != '.') = true := fun c hc => ne_point_of_isDigit (hip c hc)
  -- the fixed text splits at its point into `ip` and `fp`
  have hint : (ip ++ (if s.maxFrac = 0 then [] else '.' :: fp)).takeWhile (· != '.') = ip := by
    rw [List.takeWhile_append_of_pos hpos]
    split_ifs <;> simp
  have hfrac : ((ip ++ (if s.maxFrac = 0 then [] else '.' :: fp)).dropWhile (· != '.')).drop 1
      = fp := by
    rw [List.dropWhile_append_of_pos hpos]
    split_ifs with hk
    · rw [hk] at hfp
      simp [List.eq_nil_of_length_eq_zero hfp]
    · simp
  simp only [render, hgen, Bool.false_eq_true, if_false, hfixed, hint, hfrac]
  simp only [intDigits, fracDigits]
  by_cases hfr : render.trimZeros fp.reverse s.minFrac = []
  · simp [hfr]
  · simp [hfr, String.ofList_append, String.append_assoc]

theorem intDigits_spec (s : FormatSection) {ip : List Char} (hip : ∀ c ∈ ip, c.isDigit) :
    (∀ c ∈ s.intDigits ip, c.isDigit) ∧
      Nat.ofDigitChars 10 (s.intDigits ip) 0 = Nat.ofDigitChars 10 ip 0 ∧
      s.minInt ≤ (s.intDigits ip).length ∧
      (s.minInt < (s.intDigits ip).length → (s.intDigits ip).head? ≠ some '0') := by
  have hsub : ∀ c ∈ ip.dropWhile (· == '0'), c ∈ ip := fun c hc =>
    (List.dropWhile_sublist _).subset hc
  refine ⟨?_, ?_, ?_, ?_⟩
  · intro c hc
    rcases List.mem_append.1 hc with hc | hc
    · rw [(List.mem_replicate.1 hc).2]
      decide
    · exact hip c (hsub c hc)
  · rw [intDigits, ofDigitChars_zeros_append, ofDigitChars_dropWhile_zero]
  · simp only [intDigits, List.length_append, List.length_replicate]
    omega
  · -- beyond the required count no zero was put back, and the stripped digits lead with a nonzero
    intro hlt
    have hpad : s.minInt - (ip.dropWhile (· == '0')).length = 0 := by
      simp only [intDigits, List.length_append, List.length_replicate] at hlt
      omega
    have hne : ip.dropWhile (· == '0') ≠ [] := by
      intro h
      have : (s.intDigits ip).length = s.minInt := by simp [intDigits, h]
      omega
    simp only [intDigits, hpad, List.replicate_zero, List.nil_append]
    rw [List.head?_eq_some_head hne]
    intro h
    have := List.head_dropWhile_not (· == '0') hne
    rw [Option.some.inj h] at this
    exact absurd this (by decide)

theorem fracDigits_spec (s : FormatSection) {fp : List Char} (hwf : s.minFrac ≤ fp.length) :
    ∃ j, fp = s.fracDigits fp ++ List.replicate j '0' ∧ s.minFrac ≤ (s.fracDigits fp).length ∧
      (s.minFrac < (s.fracDigits fp).length → (s.fracDigits fp).getLast? ≠ some '0') := by
  obtain ⟨j, hj, hlen, hhead⟩ := trimZeros_spec fp.reverse s.minFrac
  refine ⟨j, ?_, ?_, ?_⟩
  · have := congrArg List.reverse hj
    rw [List.reverse_reverse, List.reverse_append, List.reverse_replicate] at this
    exact this
  · simp only [fracDigits, List.length_reverse, List.length_reverse] at hlen ⊢
    omega
  · intro hlt
    simp only [fracDigits, List.length_reverse, List.getLast?_reverse] at hlt ⊢
    exact hhead hlt

/-- `text` is how the section `s` prints a value of magnitude `v` whose rounding to `s.maxFrac`
fraction digits is `q` units of the last place: its leading text, the integer digits `ints`
(grouped into `g` when the section groups), the fraction digits `frac` after a point when there
are any, and its trailing text. Read as a decimal the digits are `q` scaled back; the fraction
keeps between the required and the allowed number of digits with no zero at its end beyond the
required ones, and the integer part keeps at least the required digits with no zero in front
beyond them. -/
def Shows (s : FormatSection) (v : ℚ) (q : ℕ) (text : String) : Prop :=
  IsRoundHalfEven q (v * 10 ^ s.maxFrac) ∧
  ∃ ints frac g : List Char,
    text = s.leading ++ String.ofList (g ++ if frac = [] then [] else '.' :: frac) ++ s.trailing ∧
    (if s.grouping then GroupedByThree g ints else g = ints) ∧
    (∀ c ∈ ints ++ frac, c.isDigit) ∧
    Nat.ofDigitChars 10 (ints ++ frac) 0 * 10 ^ (s.maxFrac - frac.length) = q ∧
    s.minFrac ≤ frac.length ∧ frac.length ≤ s.maxFrac ∧
    (s.minFrac < frac.length → frac.getLast? ≠ some '0') ∧
    s.minInt ≤ ints.length ∧ (s.minInt < ints.length → ints.head? ≠ some '0')

theorem render_shows {s : FormatSection} (hwf : s.minFrac ≤ s.maxFrac) (hgen : s.general = false)
    {x : Float} {f : Binary64.Finite}
    (hx : Binary64.decode (if s.percent then x * Binary64.ofNat 100 else x) = .finite f)
    (hneg : f.negative = false) : ∃ q, s.Shows f.magnitude q (s.render x) := by
  obtain ⟨q, hq, hfix⟩ := FloatText.fixed_of_nonneg hx hneg s.maxFrac
  obtain ⟨ip, fp, htext, hfp, -, hdig, hval⟩ := FloatText.withPoint_toList q s.maxFrac
  have hip : ∀ c ∈ ip, c.isDigit := fun c hc => hdig c (List.mem_append_left _ hc)
  have hfpd : ∀ c ∈ fp, c.isDigit := fun c hc => hdig c (List.mem_append_right _ hc)
  obtain ⟨hidig, hival, hilen, hihead⟩ := s.intDigits_spec hip
  obtain ⟨j, hj, hflen, hflast⟩ := s.fracDigits_spec (hfp ▸ hwf)
  have hjlen : fp.length = (s.fracDigits fp).length + j := by
    rw [congrArg List.length hj, List.length_append, List.length_replicate]
  have hfixed : (FloatText.fixed (if s.percent then x * Binary64.ofNat 100 else x)
      s.maxFrac).toList = ip ++ (if s.maxFrac = 0 then [] else '.' :: fp) := by
    rw [hfix, htext]
  refine ⟨q, hq, s.intDigits ip, s.fracDigits fp,
    if s.grouping then groupThousands (s.intDigits ip) else s.intDigits ip,
    render_eq hgen hfixed hip hfp, ?_, ?_, ?_, hflen, by omega, hflast, hilen, hihead⟩
  · split
    · exact groupThousands_grouped _
    · rfl
  · intro c hc
    rcases List.mem_append.1 hc with hc | hc
    · exact hidig c hc
    · exact hfpd c (hj ▸ List.mem_append_left _ hc)
  · -- the dropped fraction zeros account for the missing powers of ten
    have hjk : s.maxFrac - (s.fracDigits fp).length = j := by omega
    rw [hjk, ← hval]
    conv_rhs => rw [hj]
    rw [← List.append_assoc, @Nat.ofDigitChars_append 10 (ip ++ s.fracDigits fp),
      Nat.ofDigitChars_replicate_zero, Nat.ofDigitChars_append, Nat.ofDigitChars_append, hival,
      Nat.mul_comm]

theorem digitValue_eq_zero_iff {c : Char} (hc : c.isDigit) : c.toNat - '0'.toNat = 0 ↔ c = '0' := by
  have h48 : '0'.toNat = 48 := rfl
  simp only [Char.isDigit, Bool.and_eq_true, decide_eq_true_eq, ge_iff_le] at hc
  constructor
  · intro h
    rw [← Char.toNat_inj]
    have : 48 ≤ c.toNat := hc.1
    omega
  · rintro rfl
    rfl

theorem ofDigitChars_eq_zero_iff {l : List Char} (hl : ∀ c ∈ l, c.isDigit) (init : ℕ) :
    Nat.ofDigitChars 10 l init = 0 ↔
      init = 0 ∧ l.any (fun c => c.isDigit && c != '0') = false := by
  induction l generalizing init with
  | nil => simp [Nat.ofDigitChars]
  | cons c rest ih =>
    have hc := hl c List.mem_cons_self
    rw [Nat.ofDigitChars_cons, ih (fun d hd => hl d (List.mem_cons_of_mem c hd)), List.any_cons]
    have hd := digitValue_eq_zero_iff hc
    simp only [hc, Bool.true_and, Bool.or_eq_false_iff, bne_eq_false_iff_eq]
    rw [← hd, Nat.add_eq_zero_iff]
    simp [and_assoc]

/-- Printed text shows a nonzero digit exactly when the rounded value is nonzero or the section's
literal text holds one: the grouping commas and the point are not digits. -/
theorem showsNonzero_iff {s : FormatSection} {v : ℚ} {q : ℕ} {text : String}
    (h : s.Shows v q text) :
    text.any (fun c => c.isDigit && c != '0') = true ↔
      q ≠ 0 ∨ (s.leading ++ s.trailing).any (fun c => c.isDigit && c != '0') = true := by
  obtain ⟨-, ints, frac, g, rfl, hg, hdig, hval, -⟩ := h
  have hany : ∀ t : String, t.any (fun c => c.isDigit && c != '0') =
      t.toList.any (fun c => c.isDigit && c != '0') := fun t => String.contains_bool_eq
  have hg' : g.any (fun c => c.isDigit && c != '0') = ints.any (fun c => c.isDigit && c != '0') := by
    split at hg
    · exact hg.any_eq rfl
    · rw [hg]
  have hfrac : (if frac = [] then [] else '.' :: frac).any (fun c => c.isDigit && c != '0') =
      frac.any (fun c => c.isDigit && c != '0') := by
    split_ifs with hf
    · simp [hf]
    · simp
  -- the rounded value is zero exactly when its digits are all zeros
  have hq : q = 0 ↔ (ints ++ frac).any (fun c => c.isDigit && c != '0') = false := by
    rw [← hval, Nat.mul_eq_zero, ofDigitChars_eq_zero_iff hdig 0]
    simp
  rw [hany, hany]
  simp only [String.toList_append, String.toList_ofList, List.any_append, hg', hfrac,
    Bool.or_eq_true, ne_eq, hq, List.any_append, Bool.or_eq_false_iff, not_and, Bool.not_eq_false]
  simp only [← Bool.not_eq_true]
  tauto

/-! ### Parsed sections allow at least the fraction digits they require -/

theorem addLiteral_frac (s : FormatSection) (after : Bool) (text : String) :
    (s.addLiteral after text).minFrac = s.minFrac ∧ (s.addLiteral after text).maxFrac = s.maxFrac := by
  unfold addLiteral
  split <;> exact ⟨rfl, rfl⟩

theorem readChars_minFrac_le (cs : List Char) (s : FormatSection) (mode : ReadMode)
    (seen after : Bool) (h : s.minFrac ≤ s.maxFrac) :
    (readChars cs s mode seen after).1.minFrac ≤ (readChars cs s mode seen after).1.maxFrac := by
  fun_induction readChars cs s mode seen after with
  | case6 c rest s seen places s' hc ih =>
    apply ih
    simp +zetaDelta only
    split <;> omega
  | case7 c rest s seen after s' hc hafter ih =>
    apply ih
    simp +zetaDelta only
    split <;> simpa using h
  | _ => simp_all [addLiteral_frac]

theorem parse_minFrac_le (cs : List Char) : (parse cs).minFrac ≤ (parse cs).maxFrac := by
  have h := readChars_minFrac_le cs {} .plain false false le_rfl
  unfold parse
  rcases hr : readChars cs {} .plain false false with ⟨s, seen⟩
  rw [hr] at h
  cases seen <;> exact h

end FormatSection

namespace Formatter

open Binary64

/-- Every section of the formatter allows at least the fraction digits it requires. -/
def WellFormed (f : Formatter) : Prop :=
  f.positive.minFrac ≤ f.positive.maxFrac ∧ (∀ s ∈ f.negative, s.minFrac ≤ s.maxFrac) ∧
    ∀ s ∈ f.zero, s.minFrac ≤ s.maxFrac

theorem ofSections_wellFormed (ps : List (List Char)) : (ofPattern.ofSections ps).WellFormed := by
  rcases ps with _ | ⟨p, _ | ⟨n, _ | ⟨z, rest⟩⟩⟩ <;>
    simp [ofPattern.ofSections, WellFormed, FormatSection.parse_minFrac_le]

theorem ofPattern_wellFormed (p : String) : (ofPattern p).WellFormed := by
  unfold ofPattern
  split
  · simp [WellFormed]
  · exact ofSections_wellFormed _
  · exact ofSections_wellFormed _

/-- The section that prints `n`: the zero section for a zero when there is one, the negative
section for a negative value when there is one, and otherwise the positive section. -/
def sectionFor (f : Formatter) (n : Float) : FormatSection :=
  if n == Binary64.zero then f.zero.getD f.positive
  else if n < Binary64.zero then f.negative.getD f.positive
  else f.positive

/-- The value that section is given: zero when the zero section takes `n`, the negation of a
negative value, and otherwise `n` itself. -/
def printed (f : Formatter) (n : Float) : Float :=
  if n == Binary64.zero && f.zero.isSome then Binary64.zero
  else if n < Binary64.zero then -n
  else n

theorem sectionFor_wellFormed {f : Formatter} (hf : f.WellFormed) (n : Float) :
    (f.sectionFor n).minFrac ≤ (f.sectionFor n).maxFrac := by
  obtain ⟨hp, hn, hz⟩ := hf
  unfold sectionFor
  split_ifs
  · cases h : f.zero with
    | none => exact hp
    | some z => exact hz z h
  · cases h : f.negative with
    | none => exact hp
    | some g => exact hn g h
  · exact hp

theorem formatNumber_eq (f : Formatter) {n : Float} {fn : Finite} (hn : decode n = .finite fn) :
    f.formatNumber n =
      (if n < Binary64.zero ∧ f.negative.isNone ∧
          (f.positive.render (-n)).any (fun c => c.isDigit && c != '0') then "-" else "") ++
        (f.sectionFor n).render (f.printed n) := by
  have hzl := not_lt_zero_of_beq hn
  -- one case for each branch the formatter takes; without a negative section the sign is split
  unfold formatNumber formatNumber.nonZero sectionFor printed
  rcases hz : f.zero with _ | z <;> rcases hg : f.negative with _ | g <;>
    by_cases h0 : (n == Binary64.zero) = true <;> by_cases hl : n < Binary64.zero <;>
      simp_all <;> split_ifs <;> simp

theorem decode_printed (f : Formatter) {n : Float} {fn : Finite} (hn : decode n = .finite fn)
    (hsign : signBit n = true → (n == Binary64.zero) = true → f.zero.isSome = true) :
    ∃ h : Finite, decode (f.printed n) = .finite h ∧ h.negative = false ∧
      h.magnitude = fn.magnitude := by
  unfold printed
  by_cases hz : (n == Binary64.zero && f.zero.isSome) = true
  · rw [if_pos hz]
    have hsig : fn.significand = 0 := by
      rw [Bool.and_eq_true, beq_zero_eq hn, beq_iff_eq] at hz
      exact hz.1
    exact ⟨_, decode_zero, rfl, by simp [Finite.magnitude, hsig]⟩
  · rw [if_neg hz]
    by_cases hl : n < Binary64.zero
    · rw [if_pos hl]
      exact ⟨_, decode_neg hn, by simp [((lt_zero_iff hn).1 hl).1], rfl⟩
    · rw [if_neg hl]
      refine ⟨fn, hn, ?_, rfl⟩
      -- a value not below zero with its sign set is a zero, which the zero section would take
      rw [← Bool.not_eq_true]
      intro hneg
      have hsig : fn.significand = 0 := by
        by_contra h
        exact hl ((lt_zero_iff hn).2 ⟨hneg, h⟩)
      have h0 : (n == Binary64.zero) = true := by
        rw [beq_zero_eq hn, hsig]
        rfl
      have hsome := hsign (negative_eq_signBit hn ▸ hneg) h0
      simp [h0, hsome] at hz

theorem decode_scaled {x : Float} {h g : Finite} (hx : decode x = .finite h)
    (hneg : h.negative = false) (percent : Bool)
    (hg : decode (if percent then x * ofNat 100 else x) = .finite g) :
    g.negative = false ∧ (percent = false → g = h) := by
  cases percent with
  | true => exact ⟨decode_mul_nonneg hx decode_hundred hneg rfl hg, nofun⟩
  | false =>
    rw [if_neg Bool.false_ne_true, hx, Decoded.finite.injEq] at hg
    exact ⟨hg ▸ hneg, fun _ => hg.symm⟩

/-- What a pattern prints for a finite value. The chosen section shows the magnitude it is
given, rounded half to even to its fraction digits; without a percent sign that magnitude is
the value's own, with one it is the value's magnitude times a hundred as the multiplication
rounds it. A minus sign stands in front exactly when the value is negative, the pattern has no
negative section, and the rounded magnitude is nonzero or the section's literal text holds a
nonzero digit. A zero with its sign bit set is covered when a zero section takes it. -/
theorem formatNumber_shows_rounded (p : String) {n : Float} {fn g : Finite}
    (hn : decode n = .finite fn)
    (hsign : signBit n = true → (n == Binary64.zero) = true → (ofPattern p).zero.isSome = true)
    (hgen : ((ofPattern p).sectionFor n).general = false)
    (hg : decode (if ((ofPattern p).sectionFor n).percent then
      (ofPattern p).printed n * ofNat 100 else (ofPattern p).printed n) = .finite g) :
    (((ofPattern p).sectionFor n).percent = false → g.magnitude = fn.magnitude) ∧
    ∃ q body, ((ofPattern p).sectionFor n).Shows g.magnitude q body ∧
      (ofPattern p).formatNumber n =
        (if n < Binary64.zero ∧ (ofPattern p).negative.isNone ∧
          (q ≠ 0 ∨ ((ofPattern p).positive.leading ++ (ofPattern p).positive.trailing).any
            (fun c => c.isDigit && c != '0') = true) then "-" else "") ++ body := by
  obtain ⟨h, hh, hhneg, hmag⟩ := decode_printed _ hn hsign
  obtain ⟨hgneg, hgeq⟩ := decode_scaled hh hhneg _ hg
  refine ⟨fun hp => by rw [hgeq hp, hmag], ?_⟩
  obtain ⟨q, hq⟩ := FormatSection.render_shows
    (sectionFor_wellFormed (ofPattern_wellFormed p) n) hgen hg hgneg
  refine ⟨q, _, hq, ?_⟩
  rw [formatNumber_eq _ hn]
  congr 1
  by_cases hl : n < Binary64.zero ∧ (ofPattern p).negative.isNone = true
  · -- the positive section prints the negated value, and its text decides the sign
    have h0 : (n == Binary64.zero) = false := by
      rw [← Bool.not_eq_true]
      exact fun h0 => not_lt_zero_of_beq hn h0 hl.1
    have hsec : (ofPattern p).sectionFor n = (ofPattern p).positive := by
      simp [sectionFor, h0, hl.1, Option.isNone_iff_eq_none.1 hl.2]
    have hpr : (ofPattern p).printed n = -n := by
      simp [printed, h0, hl.1]
    rw [hsec, hpr] at hq
    simp only [hl, true_and, FormatSection.showsNonzero_iff hq]
  · rw [if_neg (fun h => hl ⟨h.1, h.2.1⟩), if_neg (fun h => hl ⟨h.1, h.2.1⟩)]

theorem formatNumber_shows_rounded_minus_five :
    (((ofPattern "0.00").sectionFor (-ofNat 5)).percent = false →
      Finite.magnitude ⟨false, 5 * 2 ^ 50, -50⟩ = Finite.magnitude ⟨true, 5 * 2 ^ 50, -50⟩) ∧
    ∃ q body, ((ofPattern "0.00").sectionFor (-ofNat 5)).Shows
        (Finite.magnitude ⟨false, 5 * 2 ^ 50, -50⟩) q body ∧
      (ofPattern "0.00").formatNumber (-ofNat 5) =
        (if -ofNat 5 < Binary64.zero ∧ (ofPattern "0.00").negative.isNone ∧
          (q ≠ 0 ∨ ((ofPattern "0.00").positive.leading ++ (ofPattern "0.00").positive.trailing).any
            (fun c => c.isDigit && c != '0') = true) then "-" else "") ++ body :=
  formatNumber_shows_rounded "0.00" rfl (by decide +kernel) (by decide +kernel) (by
    have hp : (ofPattern "0.00").printed (-ofNat 5) = ofNat 5 := by decide +kernel
    rw [if_neg (by decide +kernel), hp]
    rfl)

/-- Where the printed text departs from the rounded magnitude: a zero with its sign bit set is
not below zero yet prints with a minus sign, a value that rounds to zero gets a minus sign from a
digit in the literal text, and a percent section overflows to infinity on the largest values. -/
theorem formatNumber_sign_and_overflow :
    ¬ negZero < Binary64.zero ∧ (ofPattern "0.00").formatNumber negZero = "-0.00" ∧
    (ofPattern "\"Q1 \"0").formatNumber (-ofDecimal false 2 (-1)) = "-Q1 0" ∧
    (ofPattern "0.00%").formatNumber (ofDecimal false 17976931348623157 292) = "inf%" := by
  have hany : ∀ t : String, t.any (fun c => c.isDigit && c != '0') =
      t.toList.any (fun c => c.isDigit && c != '0') := fun t => String.contains_bool_eq
  refine ⟨by decide +kernel, by decide +kernel, ?_, by decide +kernel⟩
  -- the kernel does not run the text scan, so it is read through the character list
  unfold formatNumber formatNumber.nonZero
  simp only [hany]
  decide +kernel

end Formatter

end OlapCalc
