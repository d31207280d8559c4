import OlapCalc.Proofs.CompileFuel
import OlapCalc.Proofs.Universe

/-!
Two runs of an evaluation that settle on the same outcome.

The evaluator's nesting bound only matters if some run reaches it. To show that it does not,
the evaluator at one bound is compared with itself one level higher (`EvalAt.Settles`): at a
given context, from any counts, both give the same outcome and the same counts, and the outcome
is not the error of running out of fuel. The operations evaluation is made of settle against
themselves when they never fail with that error, which is the case for every operation that does
not recurse: the cancellation check, the cube's reads, the conversions of values, the result
limit and the compiler, whose own nesting bound is never reached.
-/

namespace OlapCalc

open EvalAt

/-! ## Operations that never run out of fuel -/

section Quiet

open OlapError

variable {α β : Type}

theorem Value.asMember_settled (v : Value) : RaisesIn (¬ ·.OutOfFuel) v.asMember :=
  (Value.asMember_ordinary v).imp fun _ h => h.not_outOfFuel

theorem Value.asTuple_settled (v : Value) : RaisesIn (¬ ·.OutOfFuel) v.asTuple :=
  (Value.asTuple_ordinary v).imp fun _ h => h.not_outOfFuel

theorem Value.toNumber_settled (v : Value) : RaisesIn (¬ ·.OutOfFuel) v.toNumber :=
  (Value.toNumber_ordinary v).imp fun _ h => h.not_outOfFuel

theorem Value.toInteger_settled (v : Value) : RaisesIn (¬ ·.OutOfFuel) v.toInteger :=
  (Value.toInteger_ordinary v).imp fun _ h => h.not_outOfFuel

theorem Value.toBoolean_settled (v : Value) : RaisesIn (¬ ·.OutOfFuel) v.toBoolean :=
  (Value.toBoolean_ordinary v).imp fun _ h => h.not_outOfFuel

theorem Value.toText_settled (v : Value) : RaisesIn (¬ ·.OutOfFuel) v.toText :=
  (Value.toText_ordinary v).imp fun _ h => h.not_outOfFuel

theorem ArithOp.apply_settled (op : ArithOp) (l r : Option Float) :
    RaisesIn (¬ ·.OutOfFuel) (op.apply l r) :=
  (ArithOp.apply_ordinary op l r).imp fun _ h => h.not_outOfFuel

theorem compareValues_settled (op : CompareOp) (l r : Value) :
    RaisesIn (¬ ·.OutOfFuel) (compareValues op l r) :=
  (compareValues_ordinary op l r).imp fun _ h => h.not_outOfFuel

theorem Cube.levelMembers_settled (c : Cube) (l : LevelRef) :
    RaisesIn (¬ ·.OutOfFuel) (c.levelMembers l) :=
  (c.levelMembers_ordinary l).imp fun _ h => h.not_outOfFuel

theorem Cube.measureIndex_settled (c : Cube) (m : Member) :
    RaisesIn (¬ ·.OutOfFuel) (c.measureIndex m) :=
  (c.measureIndex_ordinary m).imp fun _ h => h.not_outOfFuel

theorem Cube.loadCell_settled (c : Cube) (coordinate : List Member) :
    RaisesIn (¬ ·.OutOfFuel) (c.loadCell coordinate) :=
  (c.loadCell_ordinary coordinate).imp fun _ h => h.not_outOfFuel

theorem Cube.sourceMembers_settled (c : Cube) (s : MemberSource) :
    RaisesIn (¬ ·.OutOfFuel) (c.sourceMembers s) :=
  (c.sourceMembers_ordinary s).imp fun _ h => h.not_outOfFuel

theorem Cube.execute_settled (c : Cube) (r : NativeRequest) :
    RaisesIn (¬ ·.OutOfFuel) (c.execute r) :=
  (c.execute_ordinary r).imp fun _ h => h.not_outOfFuel

theorem Limiter.push_settled (l : Limiter) (t : Tuple) : RaisesIn (¬ ·.OutOfFuel) (l.push t) :=
  (l.push_ordinary t).imp fun _ h => h.not_outOfFuel

theorem Limiter.ensureRoom_settled (l : Limiter) (n : Nat) :
    RaisesIn (¬ ·.OutOfFuel) (l.ensureRoom n) :=
  (l.ensureRoom_ordinary n).imp fun _ h => h.not_outOfFuel

variable (env : Env)

theorem Env.check_settled : Eval.Raises (¬ ·.OutOfFuel) env.check :=
  env.check_raises.imp fun _ h => by rcases h with rfl | rfl <;> rintro (h | h) <;> cases h

theorem Env.loadCell_settled (ctx : Context) : Eval.Raises (¬ ·.OutOfFuel) (env.loadCell ctx) :=
  Eval.Raises.bind (Eval.Raises.modifies _) fun _ => Eval.Raises.lift (Cube.loadCell_settled _ _)

theorem Env.formulaNode_settled (m : Member) : Eval.Raises (¬ ·.OutOfFuel) (env.formulaNode m) := by
  unfold Env.formulaNode
  split
  . exact Eval.Raises.lift (env.functions.compile_settles _ _).1
  . exact Eval.Raises.throw (not_outOfFuel_of_mem 'c' (by simp) (by decide) (by decide))

end Quiet

/-! ## Settling runs -/

namespace EvalAt

variable {α β : Type}

/-- At context `ctx`, from any counts, `x` and `y` give the same outcome and the same counts,
and that outcome is not the error of running out of fuel. -/
def Settles (ctx : Context) (x y : EvalAt α) : Prop :=
  ∀ c, (x.run ctx).run.run c = (y.run ctx).run.run c ∧
    RaisesIn (¬ ·.OutOfFuel) ((x.run ctx).run.run c).1

namespace Settles

variable {ctx : Context}

theorem pure (a : α) : Settles ctx (Pure.pure a) (Pure.pure a) :=
  fun _ => ⟨rfl, fun _ h => by cases h⟩

theorem throw {e : OlapError} (h : ¬ e.OutOfFuel) :
    Settles ctx (MonadExcept.throw e : EvalAt α) (MonadExcept.throw e) :=
  fun _ => ⟨rfl, fun _ he => by cases he; exact h⟩

theorem bind_of {I : Context → Prop} {P : α → Prop} {x y : EvalAt α} {f g : α → EvalAt β}
    (hx : Settles ctx x y) (hP : YieldsIn I P x) (hI : I ctx) (hf : ∀ a, P a → Settles ctx (f a) (g a)) :
    Settles ctx (x >>= f) (y >>= g) := by
  intro c
  obtain ⟨hxy, hq⟩ := hx c
  rw [run_bind, run_bind, EvalOn.run_bind, EvalOn.run_bind, ← hxy]
  rcases h : (x.run ctx).run.run c with ⟨e | a, c'⟩
  . rw [h] at hq
    exact ⟨rfl, fun e' he => by cases he; exact hq e rfl⟩
  . exact hf a (hP ctx hI c a (by rw [h])) c'

theorem bind {x y : EvalAt α} {f g : α → EvalAt β} (hx : Settles ctx x y)
    (hf : ∀ a, Settles ctx (f a) (g a)) : Settles ctx (x >>= f) (y >>= g) :=
  bind_of (I := fun _ => True) hx YieldsIn.trivial True.intro fun a _ => hf a

theorem throw_bind {e : OlapError} {f g : α → EvalAt β} (h : ¬ e.OutOfFuel) :
    Settles ctx (MonadExcept.throw e >>= f) (MonadExcept.throw e >>= g) :=
  bind_of (throw h) (YieldsIn.throw (I := fun _ => True) (P := fun _ => False) e) True.intro
    fun _ h => h.elim

theorem liftEval {x : Eval α} (h : Eval.Raises (¬ ·.OutOfFuel) x) :
    Settles ctx (EvalMonad.liftEval x) (EvalMonad.liftEval x) :=
  fun c => ⟨rfl, fun e he => h c e he⟩

theorem liftExcept {x : Except OlapError α} (h : RaisesIn (¬ ·.OutOfFuel) x) :
    Settles ctx (OlapCalc.liftExcept x) (OlapCalc.liftExcept x) := by
  cases x with
  | ok a => exact pure a
  | error e => exact throw (h e rfl)

theorem read {f g : Context → EvalAt α} (h : Settles ctx (f ctx) (g ctx)) :
    Settles ctx (EvalMonad.context >>= f) (EvalMonad.context >>= g) :=
  h

theorem within (o : Overlay) {x y : EvalAt α} (h : Settles (o.apply ctx) x y) :
    Settles ctx (EvalMonad.within o x) (EvalMonad.within o y) :=
  h

theorem deeper {x y : EvalAt α} (h : Settles { ctx with depth := ctx.depth + 1 } x y) :
    Settles ctx (EvalMonad.deeper x) (EvalMonad.deeper y) :=
  h

theorem resolving (key : String) {x y : EvalAt α}
    (h : Settles { ctx with resolving := ctx.resolving ++ [key] } x y) :
    Settles ctx (EvalMonad.resolving key x) (EvalMonad.resolving key y) :=
  h

theorem tryCatch {x y : EvalAt α} {h₁ h₂ : OlapError → EvalAt α} (hx : Settles ctx x y)
    (hh : ∀ e, ¬ e.OutOfFuel → Settles ctx (h₁ e) (h₂ e)) :
    Settles ctx (MonadExcept.tryCatch x h₁) (MonadExcept.tryCatch y h₂) := by
  intro c
  have hr : ∀ (z : EvalAt α) (h : OlapError → EvalAt α), (MonadExcept.tryCatch z h).run ctx =
      MonadExcept.tryCatch (z.run ctx) (fun e => (h e).run ctx) := fun _ _ => rfl
  obtain ⟨hxy, hq⟩ := hx c
  rw [hr, hr, EvalOn.run_tryCatch, EvalOn.run_tryCatch, ← hxy]
  rcases h : (x.run ctx).run.run c with ⟨e | a, c'⟩
  . rw [h] at hq
    exact hh e (hq e rfl) c'
  . exact ⟨rfl, fun _ he => by cases he⟩

theorem forIn_mem {γ : Type} {f g : γ → α → EvalAt (ForInStep α)} :
    ∀ (ts : List γ), (∀ t ∈ ts, ∀ a, Settles ctx (f t a) (g t a)) →
      ∀ a, Settles ctx (ForIn.forIn ts a f) (ForIn.forIn ts a g)
  | [], _, a => pure a
  | t :: ts, hf, a => by
    rw [List.forIn_cons, List.forIn_cons]
    refine bind (hf t List.mem_cons_self a) fun s => ?_
    cases s with
    | done b => exact pure b
    | yield b => exact forIn_mem ts (fun t' ht' => hf t' (List.mem_cons_of_mem t ht')) b

theorem forIn_stream {f g : Tuple → α → EvalAt (ForInStep α)} (s : TupleStream)
    (hf : ∀ t ∈ s.toList, ∀ a, Settles ctx (f t a) (g t a)) (a : α) :
    Settles ctx (ForIn.forIn s a f) (ForIn.forIn s a g) := by
  rw [TupleStream.forIn_eq_forIn_toList, TupleStream.forIn_eq_forIn_toList]
  exact forIn_mem _ hf a

variable (env : Env)

theorem keepLimited (l : Limiter) (tuples : TupleStream) {drop₁ drop₂ : Tuple → EvalAt Bool}
    (hdrop : ∀ t ∈ tuples.toList, Settles ctx (drop₁ t) (drop₂ t)) :
    Settles ctx (env.keepLimited l tuples drop₁) (env.keepLimited l tuples drop₂) := by
  simp only [Env.keepLimited, TupleStream.forIn_eq_forIn_toList, bind_pure]
  refine forIn_mem _ (fun t ht _ => ?_) l
  refine bind (liftEval env.check_settled) fun _ => bind (hdrop t ht) fun kept => ?_
  cases kept
  . exact bind (liftExcept (Limiter.push_settled _ _)) fun _ => pure _
  . exact pure _

theorem generateLimited (l : Limiter) (source : TupleSet) {each₁ each₂ : Tuple → EvalAt TupleSet}
    (heach : ∀ t ∈ source.toList, Settles ctx (each₁ t) (each₂ t)) (all : Bool) :
    Settles ctx (env.generateLimited l source each₁ all) (env.generateLimited l source each₂ all) := by
  simp only [Env.generateLimited, TupleStream.forIn_eq_forIn_toList, TupleSet.toList_stream]
  refine bind (forIn_mem _ (fun t ht _ => ?_) _) fun _ => pure _
  refine bind (liftEval env.check_settled) fun _ => bind (heach t ht) fun _ => ?_
  refine bind (forIn_mem _ (fun _ _ _ => ?_) _) fun _ => pure _
  -- a generated tuple is pushed with ALL, or else when it was not seen before
  split
  . exact bind (liftExcept (Limiter.push_settled _ _)) fun _ => pure _
  . split
    . exact bind (liftExcept (Limiter.push_settled _ _)) fun _ => pure _
    . exact pure _

end Settles

end EvalAt

end OlapCalc
