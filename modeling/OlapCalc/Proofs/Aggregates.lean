import Mathlib.Data.List.ReduceOption
import OlapCalc.Proofs.Traversal
import OlapCalc.Proofs.TupleArity

/-!
What the aggregate functions read, and what they compute from it.

An aggregate evaluates its set once with the non-empty mode off, then visits the tuples in the
set's order: after the cancellation check, each tuple is overlaid on the caller's context and
the value expression (or the cell, without one) is read as a number. `Env.readings` says this
declaratively, one entry per tuple with `none` for a null. The evaluator's loops push the
numbers into arrays and count the tuples as they go; they compute exactly the non-null
readings, in order, and their number. The two-variable statistics read a pair per tuple, `x`
defaulting to the tuple's 1-based position, and keep the pairs whose sides are both numbers.

From there each aggregate is its statistical kernel applied to the non-null readings.
-/

namespace OlapCalc

/-- The pairs of a two-variable statistic: those whose two sides are both numbers, in order. -/
def numberPairs (ps : List (Option Float × Option Float)) : List (Float × Float) :=
  ps.filterMap fun p => p.1.bind fun a => p.2.map (a, ·)

namespace Env

section Readings

variable {m : Type → Type} [Monad m] [MonadExceptOf OlapError m] [EvalMonad m]

/-- The number an aggregate reads at a tuple: its value expression's, or the cell's without
one. -/
def numberAt (env : Env) (fuel : Nat) (value : Option Node) : m (Option Float) :=
  value.elim (do liftExcept (← env.cellValue fuel).toNumber)
    fun n => do liftExcept (← env.eval fuel n).toNumber

/-- What an aggregate reads: the set evaluated once with the non-empty mode off, then for each
of its tuples, in order and after the cancellation check, the number at that tuple overlaid on
the context. -/
def readings (env : Env) (fuel : Nat) (set : SetArg) (value : Option Node) :
    m (List (Option Float)) :=
  within (.nonEmpty false) do
    let s ← env.evalArg fuel set
    s.toList.mapM fun t => do
      liftEval env.check
      within (.tuple t) (env.numberAt fuel value)

/-- What a two-variable statistic reads: as `readings`, a `(x, y)` pair per tuple, with `y`
read first and `x` the tuple's 1-based position when there is no `x` expression. -/
def pairReadings (env : Env) (fuel : Nat) (set : SetArg) (y x : Option Node) :
    m (List (Option Float × Option Float)) :=
  within (.nonEmpty false) do
    let s ← env.evalArg fuel set
    (s.toList.zipIdx 1).mapM fun tp => do
      liftEval env.check
      within (.tuple tp.1) do
        let yv ← env.numberAt fuel y
        let xv ← x.elim (pure (some (Binary64.ofNat tp.2))) fun n => env.numberAt fuel (some n)
        pure (xv, yv)

end Readings

section Loops

variable {m : Type → Type} [Monad m] [LawfulMonad m]

theorem forIn_tally (step : Tuple → m (Option Float))
    (f : Tuple → Array Float × Nat → m (ForInStep (Array Float × Nat)))
    (hf : ∀ t r, f t r = step t >>= fun v => pure (.yield (v.elim r.1 r.1.push, r.2 + 1)))
    (ts : List Tuple) (values : Array Float) (visited : Nat) :
    (fun r => (r.1.toList, r.2)) <$> forIn ts (values, visited) f =
      (fun vs => (values.toList ++ vs.reduceOption, visited + vs.length)) <$> ts.mapM step := by
  induction ts generalizing values visited with
  | nil => simp
  | cons t ts ih =>
    simp only [List.forIn_cons, hf, List.mapM_cons, bind_assoc, pure_bind, map_bind]
    refine congrArg (step t >>= ·) (funext fun v => ?_)
    rw [ih, ← bind_pure_comp]
    simp only [map_pure, bind_pure_comp]
    refine congrArg (· <$> ts.mapM step) (funext fun vs => ?_)
    cases v <;> simp [List.reduceOption_cons_of_some, List.reduceOption_cons_of_none] <;> omega

theorem forIn_pairs (step : Tuple × Nat → m (Option Float × Option Float))
    (f : Tuple → Array Float × Array Float × Nat →
      m (ForInStep (Array Float × Array Float × Nat)))
    (hf : ∀ t r, f t r = step (t, r.2.2 + 1) >>= fun p =>
      pure (.yield ((p.1.bind fun a => p.2.map (a, ·)).elim (r.1, r.2.1, r.2.2 + 1)
        fun ab => (r.1.push ab.1, r.2.1.push ab.2, r.2.2 + 1))))
    (ts : List Tuple) (xs ys : Array Float) (position : Nat) :
    (fun r => (r.1.toList, r.2.1.toList)) <$> forIn ts (xs, ys, position) f =
      (fun ps => (xs.toList ++ (numberPairs ps).map Prod.fst,
        ys.toList ++ (numberPairs ps).map Prod.snd)) <$> (ts.zipIdx (position + 1)).mapM step := by
  induction ts generalizing xs ys position with
  | nil => simp [numberPairs]
  | cons t ts ih =>
    simp only [List.forIn_cons, hf, List.zipIdx_cons, List.mapM_cons, bind_assoc, pure_bind,
      map_bind]
    refine congrArg (step (t, position + 1) >>= ·) (funext fun p => ?_)
    -- the pair is kept exactly when both of its sides are numbers
    rcases p with ⟨_ | a, _ | b⟩ <;> dsimp only [Option.bind, Option.map, Option.elim] <;>
      rw [ih, ← bind_pure_comp] <;> simp [numberPairs]

end Loops

section Collect

variable {m : Type → Type} [Monad m] [LawfulMonad m] [MonadExceptOf OlapError m] [EvalMonad m]

theorem collect_eq (env : Env) (fuel : Nat) (set : SetArg) (value : Option Node) :
    (env.collect (fuel + 1) set value : m (List Float × Nat)) =
      within (.nonEmpty false) ((fun vs => (vs.reduceOption, vs.length)) <$> do
        let s ← env.evalArg fuel set
        s.toList.mapM fun t => do
          liftEval env.check
          within (.tuple t) (env.numberAt fuel value)) := by
  rw [Env.collect.eq_def]
  dsimp only
  refine congrArg (within _) ?_
  simp only [map_bind]
  refine congrArg (_ >>= ·) (funext fun s => ?_)
  rw [TupleStream.forIn_eq_forIn_toList, TupleSet.toList_stream, bind_pure_comp,
    forIn_tally (fun t => do liftEval env.check; within (.tuple t) (env.numberAt fuel value)) _
      fun t r => ?_]
  · simp
  -- the body reads the number at the tuple, then keeps it when it is not null
  rw [bind_assoc]
  refine congrArg (_ >>= ·) (funext fun _ => ?_)
  cases value <;> refine congrArg (_ >>= ·) (funext fun v => ?_) <;> cases v <;> rfl

theorem collectPairs_eq (env : Env) (fuel : Nat) (set : SetArg) (y x : Option Node) :
    (env.collectPairs (fuel + 1) set y x : m (List Float × List Float)) =
      within (.nonEmpty false) ((fun ps => (numberPairs ps).unzip) <$> do
        let s ← env.evalArg fuel set
        (s.toList.zipIdx 1).mapM fun tp => do
          liftEval env.check
          within (.tuple tp.1) do
            let yv ← env.numberAt fuel y
            let xv ← x.elim (pure (some (Binary64.ofNat tp.2))) fun n => env.numberAt fuel (some n)
            pure (xv, yv)) := by
  rw [Env.collectPairs.eq_def]
  dsimp only
  refine congrArg (within _) ?_
  simp only [map_bind]
  refine congrArg (_ >>= ·) (funext fun s => ?_)
  rw [TupleStream.forIn_eq_forIn_toList, TupleSet.toList_stream, bind_pure_comp,
    forIn_pairs (m := m) (fun tp => do
      liftEval env.check
      within (.tuple tp.1) do
        let yv ← env.numberAt fuel y
        let xv ← x.elim (pure (some (Binary64.ofNat tp.2))) fun n => env.numberAt fuel (some n)
        pure (xv, yv)) _ fun t r => ?_]
  · simp [List.unzip_eq_map]
  rw [bind_assoc]
  refine congrArg (_ >>= ·) (funext fun _ => ?_)
  -- `y` and `x` are read in the same order on both sides, only bracketed differently
  cases y <;> cases x <;>
    simp only [numberAt, Option.elim_none, Option.elim_some, bind_assoc, pure_bind] <;>
    refine congrArg (_ >>= ·) (funext fun p => ?_) <;> rcases p with ⟨_ | a, _ | b⟩ <;> rfl

end Collect

end Env

theorem EvalOn.map_within {α β : Type} (f : α → β) (o : Overlay) (x : EvalOn α) :
    f <$> EvalMonad.within o x = EvalMonad.within o (f <$> x) := by
  show f <$> EvalOn.within o x = EvalOn.within o (f <$> x)
  have hmap : ∀ {γ δ : Type} (k : γ → δ) (g : StateM (Evaluator × Counters) γ) s,
      (k <$> g) s = (k (g s).1, (g s).2) := fun _ _ _ => rfl
  apply ExceptT.ext
  funext s
  rcases s with ⟨ev, c⟩
  rcases h : ExceptT.run x (o.enter ev.mark.1, c) with ⟨r, ev', c'⟩
  simp only [EvalOn.within, ExceptT.run_map, ExceptT.run_mk, hmap]
  dsimp only [StateT.run]
  simp only [hmap, h]
  cases ev'.restore ev.mark.2 <;> rfl

namespace Env

theorem collect_bind {β : Type} (env : Env) (fuel : Nat) (set : SetArg) (value : Option Node)
    (g : List Float × Nat → EvalOn β) :
    env.collect (fuel + 1) set value >>= g =
      env.readings fuel set value >>= fun vs => g (vs.reduceOption, vs.length) := by
  rw [collect_eq, readings, ← EvalOn.map_within, bind_map_left]

theorem collectPairs_bind {β : Type} (env : Env) (fuel : Nat) (set : SetArg) (y x : Option Node)
    (g : List Float × List Float → EvalOn β) :
    env.collectPairs (fuel + 1) set y x >>= g =
      env.pairReadings fuel set y x >>= fun ps => g (numberPairs ps).unzip := by
  rw [collectPairs_eq, pairReadings, ← EvalOn.map_within, bind_map_left]

/-! Each aggregate is its kernel over the non-null readings. -/

theorem eval_sum (env : Env) (k : Nat) (set : SetArg) (v : Option Node) :
    (env.eval (k + 2) (.sum set v) : EvalOn Value) =
      (fun vs => if vs = [] then .float Binary64.zero
        else if vs.reduceOption = [] then .null else .float (Stats.sum vs.reduceOption)) <$>
        env.readings k set v := by
  rw [Env.eval, collect_bind, ← bind_pure_comp]
  refine congrArg (_ >>= ·) (funext fun vs => ?_)
  simp only [beq_iff_eq, List.length_eq_zero_iff, List.isEmpty_iff]
  split_ifs <;> rfl

theorem eval_avg (env : Env) (k : Nat) (set : SetArg) (v : Option Node) :
    (env.eval (k + 2) (.avg set v) : EvalOn Value) =
      (fun vs => Value.ofOptFloat (Stats.mean vs.reduceOption)) <$> env.readings k set v := by
  rw [Env.eval, collect_bind, ← bind_pure_comp]

theorem eval_extremum (env : Env) (k : Nat) (set : SetArg) (v : Option Node) (max : Bool) :
    (env.eval (k + 2) (.extremum set v max) : EvalOn Value) =
      (fun vs => Value.ofOptFloat (vs.reduceOption.head?.map
        (vs.reduceOption.tail.foldl (if max then Binary64.fmax else Binary64.fmin)))) <$>
        env.readings k set v := by
  rw [Env.eval, collect_bind, ← bind_pure_comp]
  refine congrArg (_ >>= ·) (funext fun vs => ?_)
  cases vs.reduceOption <;> rfl

theorem eval_median (env : Env) (k : Nat) (set : SetArg) (v : Option Node) :
    (env.eval (k + 2) (.percentile set v none) : EvalOn Value) =
      (fun vs => Value.ofOptFloat
        (Stats.percentile vs.reduceOption (Binary64.ofDecimal false 5 (-1)))) <$>
        env.readings k set v := by
  rw [Env.eval, pure_bind]
  dsimp only
  rw [collect_bind, ← bind_pure_comp]

theorem eval_percentile (env : Env) (k : Nat) (set : SetArg) (v : Option Node) (p : Node) :
    (env.eval (k + 2) (.percentile set v (some p)) : EvalOn Value) =
      env.numberAt (k + 1) (some p) >>= fun pct => pct.elim (pure .null) fun x =>
        (fun vs => Value.ofOptFloat
          (Stats.percentile vs.reduceOption (x / Binary64.ofNat 100))) <$> env.readings k set v := by
  rw [Env.eval]
  simp only [numberAt, Option.elim_some, bind_assoc, pure_bind]
  refine congrArg (_ >>= ·) (funext fun _ => congrArg (_ >>= ·) (funext fun pct => ?_))
  cases pct with
  | none => rfl
  | some x =>
    dsimp only [Option.map]
    rw [collect_bind, Option.elim_some, ← bind_pure_comp]

theorem eval_dispersion (env : Env) (k : Nat) (set : SetArg) (v : Option Node)
    (kind : Stats.Dispersion) (root : Bool) :
    (env.eval (k + 2) (.dispersion set v kind root) : EvalOn Value) =
      (fun vs => Value.ofOptFloat (if root then Stats.stdev vs.reduceOption kind
        else Stats.variance vs.reduceOption kind)) <$> env.readings k set v := by
  rw [Env.eval, collect_bind, ← bind_pure_comp]

theorem eval_aggregate (env : Env) (k : Nat) (set : SetArg) (v : Option Node) :
    (env.eval (k + 2) (.aggregate set v) : EvalOn Value) =
      EvalMonad.context >>= fun ctx => (fun vs => if vs.reduceOption = [] then .null
        else .float ((((env.currentMeasure? ctx).bind (·.aggregator)).getD .sum).rollValues
          vs.reduceOption)) <$> env.readings k set v := by
  rw [Env.eval]
  refine congrArg (_ >>= ·) (funext fun ctx => ?_)
  rw [collect_bind, ← bind_pure_comp]
  refine congrArg (_ >>= ·) (funext fun vs => ?_)
  simp only [List.isEmpty_iff]
  split_ifs <;> rfl

theorem eval_regression (env : Env) (k : Nat) (stat : RegressionStat) (set : SetArg) (y : Node)
    (x : Option Node) :
    (env.eval (k + 2) (.regression stat none set y x) : EvalOn Value) =
      (fun ps => (Stats.linearRegression (numberPairs ps).unzip.1 (numberPairs ps).unzip.2).elim
        .null fun fit => Value.ofOptFloat (stat.read fit none)) <$>
        env.pairReadings k set (some y) x := by
  rw [Env.eval, pure_bind]
  dsimp only
  rw [collectPairs_bind, ← bind_pure_comp]
  refine congrArg (_ >>= ·) (funext fun ps => ?_)
  cases Stats.linearRegression (numberPairs ps).unzip.1 (numberPairs ps).unzip.2 <;> rfl

theorem eval_regression_point (env : Env) (k : Nat) (stat : RegressionStat) (p : Node)
    (set : SetArg) (y : Node) (x : Option Node) :
    (env.eval (k + 2) (.regression stat (some p) set y x) : EvalOn Value) =
      env.numberAt (k + 1) (some p) >>= fun px => px.elim (pure .null) fun xv =>
        (fun ps => (Stats.linearRegression (numberPairs ps).unzip.1 (numberPairs ps).unzip.2).elim
          .null fun fit => Value.ofOptFloat (stat.read fit (some xv))) <$>
          env.pairReadings k set (some y) x := by
  rw [Env.eval]
  simp only [numberAt, Option.elim_some, bind_assoc]
  refine congrArg (_ >>= ·) (funext fun _ => congrArg (_ >>= ·) (funext fun px => ?_))
  cases px with
  | none => exact pure_bind _ _
  | some xv =>
    dsimp only
    rw [pure_bind]
    dsimp only
    rw [collectPairs_bind, Option.elim_some, ← bind_pure_comp]
    refine congrArg (_ >>= ·) (funext fun ps => ?_)
    cases Stats.linearRegression (numberPairs ps).unzip.1 (numberPairs ps).unzip.2 <;> rfl

theorem eval_covariance (env : Env) (k : Nat) (kind : Stats.Dispersion) (set : SetArg) (x : Node)
    (y : Option Node) :
    (env.eval (k + 2) (.pairwise (.covariance kind) set x y) : EvalOn Value) =
      (fun ps => Value.ofOptFloat
        (Stats.covariance (numberPairs ps).unzip.1 (numberPairs ps).unzip.2 kind)) <$>
        env.pairReadings k set y (some x) := by
  rw [Env.eval, collectPairs_bind, ← bind_pure_comp]

theorem eval_correlation (env : Env) (k : Nat) (set : SetArg) (x : Node) (y : Option Node) :
    (env.eval (k + 2) (.pairwise .correlation set x y) : EvalOn Value) =
      (fun ps => Value.ofOptFloat
        (Stats.correlation (numberPairs ps).unzip.1 (numberPairs ps).unzip.2)) <$>
        env.pairReadings k set y (some x) := by
  rw [Env.eval, collectPairs_bind, ← bind_pure_comp]

/-- Every aggregate over a set reads it once with the non-empty mode off, then its value at each
tuple in order, and applies its kernel to the non-null values; the two-variable statistics to the
pairs whose sides are both numbers, `x` defaulting to the tuple's position. -/
theorem aggregates_apply_kernel_to_non_null_values (env : Env) (k : Nat) (set : SetArg)
    (v : Option Node) :
    (env.eval (k + 2) (.sum set v) : EvalOn Value) =
        (fun vs => if vs = [] then .float Binary64.zero
          else if vs.reduceOption = [] then .null else .float (Stats.sum vs.reduceOption)) <$>
          env.readings k set v ∧
      (env.eval (k + 2) (.avg set v) : EvalOn Value) =
        (fun vs => Value.ofOptFloat (Stats.mean vs.reduceOption)) <$> env.readings k set v ∧
      (∀ max, (env.eval (k + 2) (.extremum set v max) : EvalOn Value) =
        (fun vs => Value.ofOptFloat (vs.reduceOption.head?.map
          (vs.reduceOption.tail.foldl (if max then Binary64.fmax else Binary64.fmin)))) <$>
          env.readings k set v) ∧
      (env.eval (k + 2) (.percentile set v none) : EvalOn Value) =
        (fun vs => Value.ofOptFloat
          (Stats.percentile vs.reduceOption (Binary64.ofDecimal false 5 (-1)))) <$>
          env.readings k set v ∧
      (∀ p, (env.eval (k + 2) (.percentile set v (some p)) : EvalOn Value) =
        env.numberAt (k + 1) (some p) >>= fun pct => pct.elim (pure .null) fun x =>
          (fun vs => Value.ofOptFloat
            (Stats.percentile vs.reduceOption (x / Binary64.ofNat 100))) <$>
            env.readings k set v) ∧
      (∀ kind root, (env.eval (k + 2) (.dispersion set v kind root) : EvalOn Value) =
        (fun vs => Value.ofOptFloat (if root then Stats.stdev vs.reduceOption kind
          else Stats.variance vs.reduceOption kind)) <$> env.readings k set v) ∧
      (env.eval (k + 2) (.aggregate set v) : EvalOn Value) =
        EvalMonad.context >>= (fun ctx => (fun vs => if vs.reduceOption = [] then .null
          else .float ((((env.currentMeasure? ctx).bind (·.aggregator)).getD .sum).rollValues
            vs.reduceOption)) <$> env.readings k set v) ∧
      (∀ stat y x, (env.eval (k + 2) (.regression stat none set y x) : EvalOn Value) =
        (fun ps => (Stats.linearRegression (numberPairs ps).unzip.1 (numberPairs ps).unzip.2).elim
          .null fun fit => Value.ofOptFloat (stat.read fit none)) <$>
          env.pairReadings k set (some y) x) ∧
      (∀ stat p y x, (env.eval (k + 2) (.regression stat (some p) set y x) : EvalOn Value) =
        env.numberAt (k + 1) (some p) >>= fun px => px.elim (pure .null) fun xv =>
          (fun ps => (Stats.linearRegression (numberPairs ps).unzip.1
            (numberPairs ps).unzip.2).elim .null fun fit =>
              Value.ofOptFloat (stat.read fit (some xv))) <$>
            env.pairReadings k set (some y) x) ∧
      (∀ kind x y, (env.eval (k + 2) (.pairwise (.covariance kind) set x y) : EvalOn Value) =
        (fun ps => Value.ofOptFloat
          (Stats.covariance (numberPairs ps).unzip.1 (numberPairs ps).unzip.2 kind)) <$>
          env.pairReadings k set y (some x)) ∧
      (∀ x y, (env.eval (k + 2) (.pairwise .correlation set x y) : EvalOn Value) =
        (fun ps => Value.ofOptFloat
          (Stats.correlation (numberPairs ps).unzip.1 (numberPairs ps).unzip.2)) <$>
          env.pairReadings k set y (some x)) :=
  ⟨eval_sum env k set v, eval_avg env k set v, eval_extremum env k set v,
    eval_median env k set v, eval_percentile env k set v, eval_dispersion env k set v,
    eval_aggregate env k set v, fun stat => eval_regression env k stat set,
    fun stat p => eval_regression_point env k stat p set,
    fun kind => eval_covariance env k kind set, eval_correlation env k set⟩

end Env

end OlapCalc
