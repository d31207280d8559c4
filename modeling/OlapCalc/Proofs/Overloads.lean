import Mathlib
import OlapCalc.Proofs.Selection
import OlapCalc.Proofs.ShapeInference

/-!
Overload resolution picks the cheapest applicable overload.

A call of `name` written with `style` on arguments of shapes `args` can resolve to a spec filed
under that name, ignoring ASCII case, with that syntax, whose arity bounds admit the number of
arguments and whose declared categories, the last one repeating, every argument converts to;
its cost is the sum of the conversion costs (`FunctionSpec.Accepts`). Resolution walks the table
in registration order, keeping the cheapest candidate so far and replacing it only by a cheaper
one (`FunctionTable.resolve_eq_walk`).

Main statement: resolution returns the earliest registered of the cheapest candidates, and fails
with `NoMatchingFunction` exactly when there is no candidate, for every table, every call
syntax and argument lists of every length (`FunctionTable.resolve_picks_cheapest_overload`).
-/

namespace OlapCalc

namespace FunctionSpec

/-- `spec` accepts a call of `name` written with `style` on arguments of shapes `args`, at
total cost `c`. -/
structure Accepts (spec : FunctionSpec) (name : String) (style : CallSyntax) (args : List Shape)
    (c : Nat) : Prop where
  key : FunctionTable.key spec.name = FunctionTable.key name
  style : spec.style = style
  minArgs : spec.minArgs ≤ args.length
  maxArgs : args.length ≤ spec.maxArgs
  converts : ∃ costs : Fin args.length → Nat,
    (∀ i : Fin args.length, conversionCost args[i] (spec.argType i) = some (costs i)) ∧
      c = ∑ i, costs i

theorem conversionCost_cons_succ (spec : FunctionSpec) (s : Shape) (args : List Shape) (k : Nat)
    (i : Fin args.length) :
    conversionCost (s :: args)[i.succ] (spec.argType (k + i.succ)) =
      conversionCost args[i] (spec.argType (k + 1 + i)) := by
  simp only [Fin.getElem_fin, Fin.val_succ, List.getElem_cons_succ]
  congr 2
  omega

theorem mapM_zipIdx_eq_some_iff (spec : FunctionSpec) :
    ∀ (args : List Shape) (k c : Nat),
      ((args.zipIdx k).mapM fun p => conversionCost p.1 (spec.argType p.2)).map
          (List.foldr (· + ·) 0) = some c ↔
        ∃ costs : Fin args.length → Nat,
          (∀ i : Fin args.length, conversionCost args[i] (spec.argType (k + i)) = some (costs i)) ∧
            c = ∑ i, costs i
  | [], k, c => by simp [eq_comm]
  | s :: args, k, c => by
    rw [List.zipIdx_cons, List.mapM_cons]
    cases hs : conversionCost s (spec.argType k) with
    | none =>
      -- the first argument does not convert, so no costs exist
      simp only [Option.bind_eq_bind, Option.bind_none, Option.map_none, reduceCtorEq,
        false_iff, not_exists, not_and]
      intro costs hcosts
      have h0 := hcosts 0
      simp [hs] at h0
    | some x =>
      have ih := mapM_zipIdx_eq_some_iff spec args (k + 1)
      cases hrest : (args.zipIdx (k + 1)).mapM fun p => conversionCost p.1 (spec.argType p.2) with
      | none =>
        simp only [Option.bind_eq_bind, Option.bind_some, Option.bind_none, Option.map_none,
          reduceCtorEq, false_iff, not_exists, not_and]
        intro costs hcosts _
        -- the costs of the later arguments would make the walk over them succeed
        have := (ih (∑ i : Fin args.length, costs i.succ)).2
          ⟨fun i => costs i.succ,
            fun i => (conversionCost_cons_succ spec s args k i).symm.trans (hcosts i.succ), rfl⟩
        simp [hrest] at this
      | some cs =>
        simp only [Option.bind_eq_bind, Option.bind_some, Option.pure_def,
          Option.map_some, List.foldr_cons, Option.some.injEq]
        obtain ⟨rest, hrestc, hsum⟩ := (ih (List.foldr (· + ·) 0 cs)).1 (by simp [hrest])
        constructor
        . rintro rfl
          refine ⟨Fin.cons x rest, fun i => ?_, ?_⟩
          . cases i using Fin.cases with
            | zero => simpa using hs
            | succ i => rw [conversionCost_cons_succ, Fin.cons_succ, hrestc i]
          . show _ = ∑ i : Fin (args.length + 1), Fin.cons x rest i
            rw [Fin.sum_cons, hsum]
        . rintro ⟨costs, hcosts, rfl⟩
          have h0 : x = costs 0 := by simpa [hs] using hcosts 0
          have hsucc : ∀ i : Fin args.length, costs i.succ = rest i := fun i =>
            Option.some.inj ((hcosts i.succ).symm.trans
              ((conversionCost_cons_succ spec s args k i).trans (hrestc i)))
          show _ = ∑ i : Fin (args.length + 1), costs i
          rw [Fin.sum_univ_succ, ← h0, hsum]
          simp [hsucc]

theorem cost_eq_some_iff {spec : FunctionSpec} {args : List Shape} {c : Nat} :
    spec.cost args = some c ↔ ∃ costs : Fin args.length → Nat,
      (∀ i : Fin args.length, conversionCost args[i] (spec.argType i) = some (costs i)) ∧
        c = ∑ i, costs i := by
  have h := mapM_zipIdx_eq_some_iff spec args 0 c
  simp only [Nat.zero_add] at h
  exact h

end FunctionSpec

namespace FunctionTable

/-- The cost at which `spec` accepts the call, `none` when it does not. -/
def overloadCost (name : String) (style : CallSyntax) (args : List Shape) (spec : FunctionSpec) :
    Option Nat :=
  if key spec.name == key name && spec.style == style && spec.minArgs ≤ args.length &&
      args.length ≤ spec.maxArgs then spec.cost args
  else none

theorem overloadCost_eq_some_iff {name : String} {style : CallSyntax} {args : List Shape}
    {spec : FunctionSpec} {c : Nat} :
    overloadCost name style args spec = some c ↔ spec.Accepts name style args c := by
  unfold overloadCost
  split_ifs with h
  . simp only [Bool.and_eq_true, beq_iff_eq, decide_eq_true_eq] at h
    obtain ⟨⟨⟨hkey, hstyle⟩, hmin⟩, hmax⟩ := h
    rw [FunctionSpec.cost_eq_some_iff]
    exact ⟨fun hc => ⟨hkey, CallSyntax.eq_of_beq hstyle, hmin, hmax, hc⟩, fun hc => hc.converts⟩
  . simp only [Bool.and_eq_true, beq_iff_eq, decide_eq_true_eq, not_and] at h
    simp only [false_iff]
    intro hc
    refine h ⟨⟨hc.key, ?_⟩, hc.minArgs⟩ hc.maxArgs
    rw [hc.style]
    cases style <;> rfl

/-- Resolution walks the table in registration order, keeping the cheapest candidate so far. -/
theorem resolve_eq_walk (t : FunctionTable) (name : String) (style : CallSyntax)
    (args : List Shape) :
    t.resolve name style args =
      (t.specs.foldl (keepGreater (overloadCost name style args) fun _ c => OrderDual.toDual c)
          none).elim (throw (.noMatchingFunction name (signature name style args)))
        fun best => pure best.1 := by
  unfold resolve
  dsimp only
  rw [List.foldl_filter,
    List.foldl_ext (g := keepGreater (overloadCost name style args) fun _ c => OrderDual.toDual c)]
  . generalize List.foldl _ none t.specs = best
    rcases best with _ | ⟨spec, c⟩ <;> rfl
  . -- a spec that is no candidate is skipped; a candidate replaces a dearer best
    intro best spec _
    simp only [overloadCost, keepGreater]
    split_ifs
    . cases spec.cost args with
      | none => rfl
      | some c =>
        rcases best with _ | ⟨b, bc⟩
        . rfl
        . simp only [Option.elim_some, OrderDual.toDual_lt_toDual]
    . rfl

theorem leftmostGreatest_dual_iff {name : String} {style : CallSyntax} {args : List Shape}
    {l : List FunctionSpec} {i : Nat} {spec : FunctionSpec} {c : Nat} :
    LeftmostGreatest (fun s => (overloadCost name style args s).map fun c => OrderDual.toDual c) l
        i spec (OrderDual.toDual c) ↔
      l[i]? = some spec ∧ spec.Accepts name style args c ∧
        ∀ (j : Nat) (s : FunctionSpec) (d : Nat), l[j]? = some s → s.Accepts name style args d →
          c ≤ d ∧ (j < i → c < d) := by
  have hweight : ∀ s d, s.Accepts name style args d →
      (overloadCost name style args s).map (fun c => OrderDual.toDual c) = some (OrderDual.toDual d) :=
    fun s d hd => by rw [overloadCost_eq_some_iff.2 hd, Option.map_some]
  constructor
  . intro h
    obtain ⟨c', hc', hcc'⟩ := Option.map_eq_some_iff.1 h.weight
    obtain rfl : c' = c := OrderDual.toDual_inj.1 hcc'
    exact ⟨h.get, overloadCost_eq_some_iff.1 hc', fun j s d hs hd =>
      ⟨OrderDual.toDual_le_toDual.1 (h.le j s _ hs (hweight s d hd)),
        fun hj => OrderDual.toDual_lt_toDual.1 (h.lt j s _ hj hs (hweight s d hd))⟩⟩
  . rintro ⟨hget, hacc, hmin⟩
    refine ⟨hget, hweight spec c hacc, fun j s k hs hk => ?_, fun j s k hj hs hk => ?_⟩
    . obtain ⟨d, hd, rfl⟩ := Option.map_eq_some_iff.1 hk
      exact OrderDual.toDual_le_toDual.2 (hmin j s d hs (overloadCost_eq_some_iff.1 hd)).1
    . obtain ⟨d, hd, rfl⟩ := Option.map_eq_some_iff.1 hk
      exact OrderDual.toDual_lt_toDual.2 ((hmin j s d hs (overloadCost_eq_some_iff.1 hd)).2 hj)

/-- Resolution returns the earliest registered among the cheapest specs that accept the call,
and fails with `NoMatchingFunction` exactly when no spec accepts it. -/
theorem resolve_picks_cheapest_overload (t : FunctionTable) (name : String) (style : CallSyntax)
    (args : List Shape) (spec : FunctionSpec) :
    (t.resolve name style args = .ok spec ↔
      ∃ (i c : Nat), t.specs[i]? = some spec ∧ spec.Accepts name style args c ∧
        ∀ (j : Nat) (s : FunctionSpec) (d : Nat), t.specs[j]? = some s → s.Accepts name style args d →
          c ≤ d ∧ (j < i → c < d)) ∧
    (t.resolve name style args = .error (.noMatchingFunction name (signature name style args)) ↔
      ∀ s ∈ t.specs, ∀ c, ¬ s.Accepts name style args c) := by
  have hwalk := foldl_keepGreater (overloadCost name style args) (fun _ c => OrderDual.toDual c)
    (fun _ _ => rfl) t.specs
  have hnone : (∀ s ∈ t.specs, overloadCost name style args s = none) ↔
      ∀ s ∈ t.specs, ∀ c, ¬ s.Accepts name style args c := by
    refine forall₂_congr fun s _ => ⟨fun h c hc => ?_, fun h => ?_⟩
    . rw [overloadCost_eq_some_iff.2 hc] at h
      cases h
    . cases hs : overloadCost name style args s with
      | none => rfl
      | some c => exact absurd (overloadCost_eq_some_iff.1 hs) (h c)
  rw [resolve_eq_walk]
  rcases hr : t.specs.foldl (keepGreater (overloadCost name style args) fun _ c => OrderDual.toDual c)
    none with _ | ⟨best, c⟩
  . -- no spec accepts the call
    have hall := hnone.1 (hwalk.1.1 hr)
    refine ⟨⟨fun h => (by cases h), fun h => ?_⟩, ⟨fun _ => hall, fun _ => rfl⟩⟩
    obtain ⟨i, c, hget, hacc, -⟩ := h
    exact absurd hacc (hall spec (List.mem_of_getElem? hget) c)
  . -- the walk ends with the leftmost cheapest candidate
    obtain ⟨-, i, hi⟩ := hwalk.2 best c hr
    have hsome : ¬ ∀ s ∈ t.specs, overloadCost name style args s = none := fun h => by
      rw [hwalk.1.2 h] at hr
      cases hr
    refine ⟨⟨fun h => ?_, fun h => ?_⟩, ⟨fun h => (by cases h), fun h => absurd (hnone.2 h) hsome⟩⟩
    . cases h
      exact ⟨i, c, leftmostGreatest_dual_iff.1 hi⟩
    . obtain ⟨i', c', hget, hacc, hmin⟩ := h
      obtain ⟨-, rfl, -⟩ := hi.unique (leftmostGreatest_dual_iff.2 ⟨hget, hacc, hmin⟩)
      rfl

end FunctionTable

end OlapCalc
