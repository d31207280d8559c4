import Mathlib
import OlapCalc.Proofs.Selection
import OlapCalc.Eval.Core

/-!
A cell is decided by the calculated member of greatest solve order.

When calculated members stand in a coordinate, the formula of one of them gives the cell. They
compete by solve order; among equal orders the member of the measures hierarchy comes first,
and then the member of the earlier slot, slot `i` of a coordinate being the slot of hierarchy
`i` (`Outranks`). `Context.leadingCalculated` finds the winner in one walk over the coordinate
with a strict comparison, which is the walk of `keepGreater` on the key (solve order, measure)
in lexicographic order (`leadingCalculated_eq_walk`).

Main statement (`cell_follows_solve_order`): after the cancellation check, the cell is loaded
from the cube when no member of the coordinate is calculated; otherwise the leading calculated
member is the one that outranks every other calculated member of the coordinate, and the cell
is its formula evaluated one nesting level deeper, unless the nesting depth has reached the
configured bound, where the cell fails with the cell-level recursion error before the formula
is compiled.
-/

namespace OlapCalc

namespace Member

/-- The solve order of a calculated member; `none` for a member without a formula. -/
def solveOrder? (m : Member) : Option Int := m.formula.map (·.2)

/-- The rank of a calculated member of solve order `order` in the competition for a cell: the
order, then whether it is a measure. -/
def solveKey (m : Member) (order : Int) : Int ×ₗ Bool := toLex (order, m.isMeasure)

theorem solveOrder?_eq_none_iff (m : Member) : m.solveOrder? = none ↔ m.isCalculated = false := by
  unfold solveOrder? formula isCalculated
  cases m.kind <;> simp

theorem solveKey_lt_iff (m m' : Member) (o o' : Int) :
    m'.solveKey o' < m.solveKey o ↔ o' < o ∨ o' = o ∧ m'.isMeasure = false ∧ m.isMeasure = true := by
  simp only [solveKey, Prod.Lex.toLex_lt_toLex, Bool.lt_iff]

theorem solveKey_le_iff (m m' : Member) (o o' : Int) :
    m'.solveKey o' ≤ m.solveKey o ↔
      o' < o ∨ o' = o ∧ (m'.isMeasure = false ∧ m.isMeasure = true ∨ m'.isMeasure = m.isMeasure) := by
  rw [le_iff_lt_or_eq, solveKey_lt_iff]
  simp only [solveKey, toLex_inj, Prod.mk.injEq]
  constructor
  . rintro (h | ⟨rfl, h⟩)
    . rcases h with h | ⟨rfl, h⟩
      . exact .inl h
      . exact .inr ⟨rfl, .inl h⟩
    . exact .inr ⟨rfl, .inr h⟩
  . rintro (h | ⟨rfl, h | h⟩)
    . exact .inl (.inl h)
    . exact .inl (.inr ⟨rfl, h⟩)
    . exact .inr ⟨rfl, h⟩

end Member

/-- Calculated member `m` of solve order `o` in slot `i` of a coordinate outranks `m'` of solve
order `o'` in slot `j`: a greater solve order, or the same with `m` the measure and `m'` not,
or the same order and kind with `m` in the earlier slot. -/
def Outranks (i : Nat) (m : Member) (o : Int) (j : Nat) (m' : Member) (o' : Int) : Prop :=
  o' < o ∨ o' = o ∧ (m'.isMeasure = false ∧ m.isMeasure = true ∨ m'.isMeasure = m.isMeasure ∧ i < j)

namespace Context

/-- The leading calculated member is found by the walk that keeps the first member of greatest
key. -/
theorem leadingCalculated_eq_walk (ctx : Context) :
    ctx.leadingCalculated =
      (ctx.coordinate.foldl (keepGreater Member.solveOrder? Member.solveKey) none).map (·.1) := by
  unfold leadingCalculated
  dsimp only
  rw [List.foldl_ext (g := keepGreater Member.solveOrder? Member.solveKey)]
  -- a member without formula is skipped; a calculated one replaces a best it outranks
  intro best m _
  simp only [keepGreater, Member.solveOrder?]
  cases m.formula with
  | none => rfl
  | some f =>
    rcases best with _ | ⟨current, currentOrder⟩
    . rfl
    . simp only [Option.map_some, Option.elim_some, Member.solveKey_lt_iff]
      by_cases hlt : currentOrder < f.2
      . simp [hlt]
      . by_cases heq : currentOrder = f.2
        . subst heq
          cases current.isMeasure <;> cases m.isMeasure <;> simp
        . simp only [hlt, heq, false_or, false_and, if_false]
          rw [if_neg (by simp; omega)]

theorem leftmostGreatest_iff {l : List Member} {i : Nat} {m : Member} {o : Int} :
    LeftmostGreatest (fun b => b.solveOrder?.map b.solveKey) l i m (m.solveKey o) ↔
      l[i]? = some m ∧ m.solveOrder? = some o ∧
        ∀ j m' o', j ≠ i → l[j]? = some m' → m'.solveOrder? = some o' → Outranks i m o j m' o' := by
  have hkey : ∀ (b : Member) (k : Int ×ₗ Bool), b.solveOrder?.map b.solveKey = some k ↔
      ∃ o', b.solveOrder? = some o' ∧ b.solveKey o' = k := fun b k => Option.map_eq_some_iff
  constructor
  . intro h
    obtain ⟨o₁, ho₁, hk⟩ := (hkey m _).1 h.weight
    obtain rfl : o = o₁ := by
      simp only [Member.solveKey, toLex_inj, Prod.mk.injEq] at hk
      exact hk.1.symm
    refine ⟨h.get, ho₁, fun j m' o' hji hj ho' => ?_⟩
    have hw : m'.solveOrder?.map m'.solveKey = some (m'.solveKey o') := by simp [ho']
    rcases Nat.lt_or_gt_of_ne hji with hlt | hgt
    . -- a member before the leader has a smaller key
      have := (Member.solveKey_lt_iff m m' o o').1 (h.lt j m' _ hlt hj hw)
      rcases this with h' | ⟨h₁, h₂⟩
      . exact .inl h'
      . exact .inr ⟨h₁, .inl h₂⟩
    . -- a member after it has a key no greater
      have := (Member.solveKey_le_iff m m' o o').1 (h.le j m' _ hj hw)
      rcases this with h' | ⟨h₁, h₂ | h₂⟩
      . exact .inl h'
      . exact .inr ⟨h₁, .inl h₂⟩
      . exact .inr ⟨h₁, .inr ⟨h₂, hgt⟩⟩
  . rintro ⟨hget, ho, hout⟩
    refine ⟨hget, by simp [ho], fun j m' k hj hk => ?_, fun j m' k hlt hj hk => ?_⟩
    . obtain ⟨o', ho', rfl⟩ := (hkey m' k).1 hk
      by_cases hji : j = i
      . subst hji
        obtain rfl : m' = m := Option.some.inj (hj.symm.trans hget)
        obtain rfl : o' = o := Option.some.inj (ho'.symm.trans ho)
        exact le_rfl
      . rw [Member.solveKey_le_iff]
        rcases hout j m' o' hji hj ho' with h' | ⟨h₁, h₂ | ⟨h₂, -⟩⟩
        . exact .inl h'
        . exact .inr ⟨h₁, .inl h₂⟩
        . exact .inr ⟨h₁, .inr h₂⟩
    . obtain ⟨o', ho', rfl⟩ := (hkey m' k).1 hk
      rw [Member.solveKey_lt_iff]
      rcases hout j m' o' (Nat.ne_of_lt hlt) hj ho' with h' | ⟨h₁, h₂ | ⟨-, h₂⟩⟩
      . exact .inl h'
      . exact .inr ⟨h₁, h₂⟩
      . omega

theorem leadingCalculated_eq_none_iff (ctx : Context) :
    ctx.leadingCalculated = none ↔ ∀ m ∈ ctx.coordinate, m.isCalculated = false := by
  rw [leadingCalculated_eq_walk, Option.map_eq_none_iff,
    (foldl_keepGreater _ _ (fun _ _ => rfl) ctx.coordinate).1]
  exact forall₂_congr fun m _ => Member.solveOrder?_eq_none_iff m

theorem leadingCalculated_eq_some_iff (ctx : Context) (m : Member) :
    ctx.leadingCalculated = some m ↔
      ∃ i o, ctx.coordinate[i]? = some m ∧ m.solveOrder? = some o ∧
        ∀ j m' o', j ≠ i → ctx.coordinate[j]? = some m' → m'.solveOrder? = some o' →
          Outranks i m o j m' o' := by
  have hwalk := foldl_keepGreater Member.solveOrder? Member.solveKey (fun _ _ => rfl) ctx.coordinate
  rw [leadingCalculated_eq_walk]
  constructor
  . intro h
    obtain ⟨⟨m', o⟩, hr, rfl⟩ := Option.map_eq_some_iff.1 h
    obtain ⟨-, i, hi⟩ := hwalk.2 _ o hr
    exact ⟨i, o, leftmostGreatest_iff.1 hi⟩
  . rintro ⟨i, o, hi⟩
    have hlead := leftmostGreatest_iff.2 hi
    rcases hr : ctx.coordinate.foldl (keepGreater Member.solveOrder? Member.solveKey) none with
      _ | ⟨m', o'⟩
    . have := hwalk.1.1 hr m (List.mem_of_getElem? hi.1)
      rw [hi.2.1] at this
      cases this
    . obtain ⟨-, i', hi'⟩ := hwalk.2 m' o' hr
      obtain ⟨-, rfl, -⟩ := hi'.unique hlead
      rfl

/- Of two calculated members of one solve order, the measure leads, from the later slot too. -/
example : ({ coordinate := [.calculated (.all 0 "Store") "West" (.literal .null) 3,
    .calculatedMeasure 1 "Share" (.literal .null) 3] } : Context).leadingCalculated.map
      Member.isMeasure = some true := by
  decide

end Context

theorem EvalAt.context_bind_apply {α : Type} (f : Context → EvalAt α) (ctx : Context) :
    (EvalMonad.context >>= f : EvalAt α) ctx = f ctx ctx :=
  pure_bind ctx fun a => f a ctx

namespace Env

section Cell

variable {m : Type → Type} [Monad m] [MonadExceptOf OlapError m] [EvalMonad m]

theorem cellValue_succ_eq (env : Env) (fuel : Nat) :
    (env.cellValue (fuel + 1) : m Value) = (liftEval env.check >>= fun _ => context >>= fun ctx =>
      ctx.leadingCalculated.elim (liftEval (env.loadCell ctx)) fun member =>
        if ctx.depth ≥ env.config.maxEvalDepth then
          throw (.eval ("infinite recursion detected while evaluating calculated member " ++
            member.uniqueName))
        else liftEval (env.formulaNode member) >>= fun node => deeper (env.eval fuel node)) := by
  rw [Env.cellValue]
  refine congrArg (_ >>= ·) (funext fun _ => congrArg (_ >>= ·) (funext fun ctx => ?_))
  cases ctx.leadingCalculated <;> rfl

end Cell

/-- Evaluated at a context, the cell after the cancellation check is the stored cell when no
member of the coordinate is calculated; otherwise the leading calculated member outranks every
other one, and the cell is its formula evaluated at the context one nesting level deeper, or,
when the nesting depth has reached the bound, the cell-level recursion error, raised before the
formula is compiled. -/
theorem cell_follows_solve_order (env : Env) (fuel : Nat) (ctx : Context) :
    (env.cellValue (fuel + 1) : EvalAt Value).run ctx =
        (env.check >>= fun _ => ctx.leadingCalculated.elim (env.loadCell ctx) fun member =>
          if ctx.depth ≥ env.config.maxEvalDepth then
            throw (.eval ("infinite recursion detected while evaluating calculated member " ++
              member.uniqueName))
          else env.formulaNode member >>= fun node =>
            (env.eval fuel node : EvalAt Value).run { ctx with depth := ctx.depth + 1 }) ∧
      (ctx.leadingCalculated = none ↔ ∀ m ∈ ctx.coordinate, m.isCalculated = false) ∧
      (∀ m, ctx.leadingCalculated = some m ↔
        ∃ i o, ctx.coordinate[i]? = some m ∧ m.solveOrder? = some o ∧
          ∀ j m' o', j ≠ i → ctx.coordinate[j]? = some m' → m'.solveOrder? = some o' →
            Outranks i m o j m' o') ∧
      ∀ message, (OlapError.eval message).isCellError = true := by
  refine ⟨?_, ctx.leadingCalculated_eq_none_iff, ctx.leadingCalculated_eq_some_iff, fun _ => rfl⟩
  rw [cellValue_succ_eq]
  show env.check >>= (fun _ => _) = _
  refine congrArg (_ >>= ·) (funext fun _ => ?_)
  rw [EvalAt.context_bind_apply]
  cases ctx.leadingCalculated with
  | none => rfl
  | some member =>
    dsimp only [Option.elim]
    split <;> rfl

end Env

end OlapCalc
