import Mathlib
import OlapCalc.Eval.Context

/-!
The orders the ranking operators sort by.

`Order` compares its keys with `compareKeys`; the in-memory top and bottom counts compare their
numeric keys with `rankKeyLe`. Each is the order of a key in a linear order, so each is a total
preorder and a sort by it is well defined.

On scalars the key of `compareKeys` is the rank (null, numbers, strings, booleans), then the
number's total-order key, then the string, then the boolean. The key of `rankKeyLe` puts a
missing number first, then the floats in IEEE order with both zeros together, then NaN. The IEEE
order is read off the logical model of `Float`: a float unpacks into an infinity, a zero, a
finite number of a sign, mantissa and exponent, or NaN.
-/

namespace OlapCalc

namespace Binary64

open Float.Model

/-- Where a float stands in the IEEE order: negative infinity, the negative numbers (the larger
the exponent and then the mantissa, the lower), the zeros together, the positive numbers,
positive infinity, and NaN after everything. -/
def orderKey : UnpackedFloat → Lex (Nat × Lex (Int × Int))
  | .infinity .negative => toLex (0, toLex (0, 0))
  | .finite .negative m e _ => toLex (1, toLex (-e, -(m : Int)))
  | .zero _ => toLex (2, toLex (0, 0))
  | .finite .positive m e _ => toLex (3, toLex (e, m))
  | .infinity .positive => toLex (4, toLex (0, 0))
  | .notANumber => toLex (5, toLex (0, 0))

theorem isLE_then_compare (e e' : Int) (m m' : Nat) :
    ((compare e e').then (compare m m')).isLE ↔ e < e' ∨ e = e' ∧ m ≤ m' := by
  rcases lt_trichotomy e e' with h | rfl | h
  · simp [compare_lt_iff_lt.2 h, h]
  · simpa using Nat.isLE_compare
  · simp [compare_gt_iff_gt.2 h, h.ne', not_lt.2 h.le]

theorem isGE_then_compare (e e' : Int) (m m' : Nat) :
    ((compare e e').then (compare m m')).isGE ↔ e' < e ∨ e = e' ∧ m' ≤ m := by
  rcases lt_trichotomy e e' with h | rfl | h
  · simp [compare_lt_iff_lt.2 h, h.ne, not_lt.2 h.le]
  · simpa using Nat.isGE_compare
  · simp [compare_gt_iff_gt.2 h, h]

theorem unpacked_le_iff (a b : UnpackedFloat) (ha : a.isNaN = false) (hb : b.isNaN = false) :
    a.le b = true ↔ orderKey a ≤ orderKey b := by
  cases a with
  | notANumber => cases ha
  | infinity s =>
    cases b with
    | notANumber => cases hb
    | infinity t => cases s <;> cases t <;> decide
    | zero t => cases s <;> cases t <;> decide
    | finite t m e h =>
      cases s <;> cases t <;>
        simp [UnpackedFloat.le, UnpackedFloat.compare, orderKey, Prod.Lex.toLex_le_toLex]
  | zero s =>
    cases b with
    | notANumber => cases hb
    | infinity t => cases s <;> cases t <;> decide
    | zero t => cases s <;> cases t <;> decide
    | finite t m e h =>
      cases s <;> cases t <;>
        simp [UnpackedFloat.le, UnpackedFloat.compare, orderKey, Prod.Lex.toLex_le_toLex]
  | finite s m e h =>
    -- between two finite numbers of one sign the exponents decide, then the mantissas
    cases b with
    | notANumber => cases hb
    | infinity t =>
      cases s <;> cases t <;>
        simp [UnpackedFloat.le, UnpackedFloat.compare, orderKey, Prod.Lex.toLex_le_toLex]
    | zero t =>
      cases s <;> cases t <;>
        simp [UnpackedFloat.le, UnpackedFloat.compare, orderKey, Prod.Lex.toLex_le_toLex]
    | finite t m' e' h' =>
      cases s <;> cases t <;> simp [UnpackedFloat.le, UnpackedFloat.compare, orderKey,
        Prod.Lex.toLex_le_toLex, isLE_then_compare, isGE_then_compare]

theorem orderKey_lt_nan {u : UnpackedFloat} (hu : u.isNaN = false) :
    orderKey u < orderKey .notANumber := by
  cases u with
  | notANumber => cases hu
  | infinity s => cases s <;> decide
  | zero s => cases s <;> decide
  | finite s m e h => cases s <;> simp [orderKey, Prod.Lex.toLex_lt_toLex]

theorem decide_le (x y : Float) : decide (x ≤ y) = x.toModel.unpack.le y.toModel.unpack := by
  change decide (x.le y = true) = _
  rw [Bool.decide_eq_true]
  change decide (x.toModel.le y.toModel = true) = _
  rw [Bool.decide_eq_true]
  rfl

end Binary64

/-- The key `rankKeyLe` orders by: a missing number below every float, the floats by
`Binary64.orderKey`. -/
def rankKey (a : Option Float) : WithBot (Lex (Nat × Lex (Int × Int))) :=
  a.elim ⊥ fun x => ↑(Binary64.orderKey x.toModel.unpack)

theorem rankKeyLe_iff (a b : Option Float) : rankKeyLe a b = true ↔ rankKey a ≤ rankKey b := by
  cases a with
  | none => simp [rankKeyLe, rankKey]
  | some x =>
    cases b with
    | none => simp [rankKeyLe, rankKey]
    | some y =>
      simp only [rankKeyLe, rankKey, Option.elim, WithBot.coe_le_coe]
      -- `isNaN` of a float is `isNaN` of its unpacked model, which holds of NaN alone
      have nan_eq : ∀ z : Float, z.isNaN = true → z.toModel.unpack = .notANumber := by
        intro z hz
        change z.toModel.unpack.isNaN = true at hz
        revert hz
        cases z.toModel.unpack <;> intro hz
        case notANumber => rfl
        all_goals exact (Bool.false_ne_true hz).elim
      by_cases hy : y.isNaN = true
      · simp only [hy, if_true, true_iff, nan_eq y hy]
        by_cases hx : x.isNaN = true
        · rw [nan_eq x hx]
        · exact (Binary64.orderKey_lt_nan (Bool.eq_false_iff.mpr hx)).le
      · by_cases hx : x.isNaN = true
        · simp only [hy, hx, if_true, if_false, Bool.false_eq_true, false_iff, not_le, nan_eq x hx]
          exact Binary64.orderKey_lt_nan (Bool.eq_false_iff.mpr hy)
        · simp only [hy, hx, Binary64.decide_le]
          exact Binary64.unpacked_le_iff _ _ (Bool.eq_false_iff.mpr hx) (Bool.eq_false_iff.mpr hy)

theorem rankKeyLe_trans {a b c : Option Float} (hab : rankKeyLe a b = true)
    (hbc : rankKeyLe b c = true) : rankKeyLe a c = true := by
  rw [rankKeyLe_iff] at *
  exact hab.trans hbc

theorem rankKeyLe_total (a b : Option Float) : (rankKeyLe a b || rankKeyLe b a) = true := by
  simpa [Bool.or_eq_true, rankKeyLe_iff] using le_total (rankKey a) (rankKey b)

/-- The values `Order` sorts meaningfully: nulls, numbers, strings and booleans. -/
inductive Value.IsScalar : Value → Prop
  | null : Value.IsScalar .null
  | integer (n : Int) : Value.IsScalar (.integer n)
  | float (x : Float) : Value.IsScalar (.float x)
  | string (s : String) : Value.IsScalar (.string s)
  | boolean (b : Bool) : Value.IsScalar (.boolean b)

/-- Where a scalar stands in the order of `Order` keys: its rank, then a number's total-order
key, then a string, then a boolean. Other values are put after all scalars. -/
def Value.sortKey : Value → Lex (Nat × Lex (Int × Lex (String × Bool)))
  | .null => toLex (0, toLex (0, toLex ("", false)))
  | .integer n => toLex (1, toLex (Binary64.totalKey (Binary64.ofInt n), toLex ("", false)))
  | .float x => toLex (1, toLex (Binary64.totalKey x, toLex ("", false)))
  | .string s => toLex (2, toLex (0, toLex (s, false)))
  | .boolean b => toLex (3, toLex (0, toLex ("", b)))
  | _ => toLex (4, toLex (0, toLex ("", false)))

theorem compare_toLex {α β : Type} [Ord α] [Ord β] (a c : α) (b d : β) :
    compare (toLex (a, b)) (toLex (c, d)) = (compare a c).then (compare b d) := by
  simp [Prod.Lex.compare_def, compareLex, compareOn]

theorem compareKeys_eq_compare {a b : Value} (ha : a.IsScalar) (hb : b.IsScalar) :
    compareKeys a b = compare a.sortKey b.sortKey := by
  cases ha <;> cases hb <;>
    simp [compareKeys, Value.sortKey, compare_toLex, Binary64.totalCompare, Value.keyRank]
  -- keys of different ranks: the rank alone decides
  all_goals rfl

theorem compareKeys_ne_gt_iff {a b : Value} (ha : a.IsScalar) (hb : b.IsScalar) :
    compareKeys a b ≠ .gt ↔ a.sortKey ≤ b.sortKey := by
  rw [compareKeys_eq_compare ha hb, Ne, compare_gt_iff_gt, not_lt]

end OlapCalc
