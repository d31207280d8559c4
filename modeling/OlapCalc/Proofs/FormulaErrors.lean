import OlapCalc.Proofs.Termination

/-!
Compile errors met during evaluation come from the formulas it meets.

Evaluation runs the compiler on the formula of a calculated member only, and only for a member
on the coordinate of a context it has reached: the member leading a cell, or a calculated member
of the context a native request resolves (`Env.formulaNode`). Every context evaluation reaches
from one the universe covers is covered too (`Env.Universe.Covers`, `Env.Universe.StaysAt`). So
every compile-kind error an evaluation raises is the error of compiling, as a value, the formula
of a member of the universe generated by the cube, the starting context and the node; every
other error it raises is of the cell or the fatal kind (`Env.compile_errors_come_from_formulas`).
When the formulas of those members compile, no compile-kind error comes out of evaluation.
-/

namespace OlapCalc

namespace EvalAt

variable {α β : Type}

/-- At context `ctx`, from any counts, every error `x` fails with satisfies `E`. -/
def RaisesFrom (E : OlapError → Prop) (ctx : Context) (x : EvalAt α) : Prop :=
  ∀ c e, ((x.run ctx).run.run c).1 = .error e → E e

namespace RaisesFrom

variable {E : OlapError → Prop} {ctx : Context}

theorem pure (a : α) : RaisesFrom E ctx (Pure.pure a) := fun _ _ h => by cases h

theorem throw {e : OlapError} (h : E e) : RaisesFrom E ctx (MonadExcept.throw e : EvalAt α) :=
  fun _ _ he => by cases he; exact h

theorem bind_of {I : Context → Prop} {P : α → Prop} {x : EvalAt α} {f : α → EvalAt β}
    (hx : RaisesFrom E ctx x) (hP : YieldsIn I P x) (hI : I ctx)
    (hf : ∀ a, P a → RaisesFrom E ctx (f a)) : RaisesFrom E ctx (x >>= f) := by
  intro c e he
  rw [run_bind, EvalOn.run_bind] at he
  rcases h : (x.run ctx).run.run c with ⟨e' | a, c'⟩ <;> rw [h] at he
  . cases he
    exact hx c _ (by rw [h])
  . exact hf a (hP ctx hI c a (by rw [h])) c' e he

theorem bind {x : EvalAt α} {f : α → EvalAt β} (hx : RaisesFrom E ctx x)
    (hf : ∀ a, RaisesFrom E ctx (f a)) : RaisesFrom E ctx (x >>= f) :=
  bind_of (I := fun _ => True) hx YieldsIn.trivial True.intro fun a _ => hf a

theorem throw_bind {e : OlapError} {f : α → EvalAt β} (h : E e) :
    RaisesFrom E ctx (MonadExcept.throw e >>= f) :=
  bind_of (throw h) (YieldsIn.throw (I := fun _ => True) (P := fun _ => False) e) True.intro
    fun _ h => h.elim

theorem liftEval {x : Eval α} (h : Eval.Raises E x) : RaisesFrom E ctx (EvalMonad.liftEval x) :=
  fun c e he => h c e he

theorem liftExcept {x : Except OlapError α} (h : RaisesIn E x) :
    RaisesFrom E ctx (OlapCalc.liftExcept x) := by
  cases x with
  | ok a => exact pure a
  | error e => exact throw (h e rfl)

theorem read {f : Context → EvalAt α} (h : RaisesFrom E ctx (f ctx)) :
    RaisesFrom E ctx (EvalMonad.context >>= f) :=
  h

theorem within (o : Overlay) {x : EvalAt α} (h : RaisesFrom E (o.apply ctx) x) :
    RaisesFrom E ctx (EvalMonad.within o x) :=
  h

theorem deeper {x : EvalAt α} (h : RaisesFrom E { ctx with depth := ctx.depth + 1 } x) :
    RaisesFrom E ctx (EvalMonad.deeper x) :=
  h

theorem resolving (key : String) {x : EvalAt α}
    (h : RaisesFrom E { ctx with resolving := ctx.resolving ++ [key] } x) :
    RaisesFrom E ctx (EvalMonad.resolving key x) :=
  h

theorem tryCatch {x : EvalAt α} {h : OlapError → EvalAt α} (hx : RaisesFrom E ctx x)
    (hh : ∀ e, E e → RaisesFrom E ctx (h e)) : RaisesFrom E ctx (MonadExcept.tryCatch x h) := by
  intro c e he
  have hr : (MonadExcept.tryCatch x h).run ctx =
      MonadExcept.tryCatch (x.run ctx) (fun e => (h e).run ctx) := rfl
  rw [hr, EvalOn.run_tryCatch] at he
  rcases hxr : (x.run ctx).run.run c with ⟨e' | a, c'⟩ <;> rw [hxr] at he
  . exact hh e' (hx c e' (by rw [hxr])) c' e he
  . cases he

theorem forIn_mem {γ : Type} {f : γ → α → EvalAt (ForInStep α)} :
    ∀ (ts : List γ), (∀ t ∈ ts, ∀ a, RaisesFrom E ctx (f t a)) →
      ∀ a, RaisesFrom E ctx (ForIn.forIn ts a f)
  | [], _, a => pure a
  | t :: ts, hf, a => by
    rw [List.forIn_cons]
    refine bind (hf t List.mem_cons_self a) fun s => ?_
    cases s with
    | done b => exact pure b
    | yield b => exact forIn_mem ts (fun t' ht' => hf t' (List.mem_cons_of_mem t ht')) b

theorem forIn_stream {f : Tuple → α → EvalAt (ForInStep α)} (s : TupleStream)
    (hf : ∀ t ∈ s.toList, ∀ a, RaisesFrom E ctx (f t a)) (a : α) :
    RaisesFrom E ctx (ForIn.forIn s a f) := by
  rw [TupleStream.forIn_eq_forIn_toList]
  exact forIn_mem _ hf a

end RaisesFrom

end EvalAt

namespace Env.Universe

open EvalAt

variable {env : Env} (U : env.Universe)

/-- The errors evaluation may raise inside a universe: an error of the cell or the fatal kind,
or the error of compiling, as a value, the formula of a calculated member of the universe. -/
def FormulaError (err : OlapError) : Prop :=
  err.NotCompile ∨
    ∃ m ∈ U.members, ∃ f, m.formula = some f ∧ env.functions.compile f.1 .value = .error err

variable {U} {ctx : Context}

theorem quiet_liftEval {α : Type} {x : Eval α} (h : Eval.Raises OlapError.NotCompile x) :
    RaisesFrom U.FormulaError ctx (EvalMonad.liftEval x) :=
  RaisesFrom.liftEval fun c e he => .inl (h c e he)

theorem quiet_liftExcept {α : Type} {x : Except OlapError α} (h : RaisesIn OlapError.NotCompile x) :
    RaisesFrom U.FormulaError ctx (liftExcept x) :=
  RaisesFrom.liftExcept fun e he => .inl (h e he)

theorem quiet_throw {α : Type} {e : OlapError} (h : e.NotCompile) :
    RaisesFrom U.FormulaError ctx (MonadExcept.throw e : EvalAt α) :=
  RaisesFrom.throw (.inl h)

theorem quiet_bind {α β : Type} {x : Except OlapError α} (hx : RaisesIn OlapError.NotCompile x)
    {f : α → EvalAt β} (hf : ∀ a, RaisesFrom U.FormulaError ctx (f a)) :
    RaisesFrom U.FormulaError ctx (liftExcept x >>= f) :=
  RaisesFrom.bind (quiet_liftExcept hx) hf

theorem formulaNode_raises {m : Member} (hm : m ∈ U.members) :
    Eval.Raises U.FormulaError (env.formulaNode m) := by
  unfold Env.formulaNode
  split
  . next e o hf => exact Eval.Raises.lift fun err h => .inr ⟨m, hm, (e, o), hf, h⟩
  . exact Eval.Raises.throw (.inl (by simp [OlapError.NotCompile, OlapError.kind]))

theorem keepLimited_raises (l : Limiter) (tuples : TupleStream) {drop : Tuple → EvalAt Bool}
    (hdrop : ∀ t ∈ tuples.toList, RaisesFrom U.FormulaError ctx (drop t)) :
    RaisesFrom U.FormulaError ctx (env.keepLimited l tuples drop) := by
  simp only [Env.keepLimited, TupleStream.forIn_eq_forIn_toList, bind_pure]
  refine RaisesFrom.forIn_mem _ (fun t ht _ => ?_) l
  refine RaisesFrom.bind (quiet_liftEval env.check_notCompile) fun _ =>
    RaisesFrom.bind (hdrop t ht) fun kept => ?_
  cases kept
  . exact RaisesFrom.bind (quiet_liftExcept (Limiter.push_notCompile _ _)) fun _ =>
      RaisesFrom.pure _
  . exact RaisesFrom.pure _

theorem generateLimited_raises (l : Limiter) (source : TupleSet) {each : Tuple → EvalAt TupleSet}
    (heach : ∀ t ∈ source.toList, RaisesFrom U.FormulaError ctx (each t)) (all : Bool) :
    RaisesFrom U.FormulaError ctx (env.generateLimited l source each all) := by
  simp only [Env.generateLimited, TupleStream.forIn_eq_forIn_toList, TupleSet.toList_stream]
  refine RaisesFrom.bind (RaisesFrom.forIn_mem _ (fun t ht _ => ?_) _) fun _ => RaisesFrom.pure _
  refine RaisesFrom.bind (quiet_liftEval env.check_notCompile) fun _ =>
    RaisesFrom.bind (heach t ht) fun _ => ?_
  refine RaisesFrom.bind (RaisesFrom.forIn_mem _ (fun _ _ _ => ?_) _) fun _ => RaisesFrom.pure _
  -- each generated tuple is pushed, unless it is a repeat to skip
  split
  . exact quiet_bind (Limiter.push_notCompile _ _) fun _ => RaisesFrom.pure _
  split
  . exact quiet_bind (Limiter.push_notCompile _ _) fun _ => RaisesFrom.pure _
  . exact RaisesFrom.pure _

variable (U) in
/-- At nesting bound `fuel`, from a context the universe covers and on nodes naming members of
it, every function of the evaluator raises only errors of the cell or fatal kind and the compile
errors of the formulas of the universe's members. -/
structure RaisesWithin (fuel : Nat) : Prop where
  cellValue : ∀ ctx, U.Covers ctx → RaisesFrom U.FormulaError ctx (env.cellValue fuel)
  isEmptyCell : ∀ ctx, U.Covers ctx → RaisesFrom U.FormulaError ctx (env.isEmptyCell fuel)
  eval : ∀ ctx n, U.Covers ctx → n.members ⊆ U.members →
    RaisesFrom U.FormulaError ctx (env.eval fuel n)
  evalSet : ∀ ctx n style, U.Covers ctx → n.members ⊆ U.members →
    RaisesFrom U.FormulaError ctx (env.evalSet fuel n style)
  evalArg : ∀ ctx a, U.Covers ctx → Node.argMembers a ⊆ U.members →
    RaisesFrom U.FormulaError ctx (env.evalArg fuel a)
  collect : ∀ ctx set v, U.Covers ctx → Node.argMembers set ++ Node.optMembers v ⊆ U.members →
    RaisesFrom U.FormulaError ctx (env.collect fuel set v)
  collectPairs : ∀ ctx set y x, U.Covers ctx →
    Node.argMembers set ++ Node.optMembers y ++ Node.optMembers x ⊆ U.members →
    RaisesFrom U.FormulaError ctx (env.collectPairs fuel set y x)
  dispatch : ∀ ctx site nonEmpty, U.Covers ctx → site.members ⊆ U.members →
    RaisesFrom U.FormulaError ctx (env.dispatch fuel site nonEmpty)
  attempt : ∀ ctx site nonEmpty, U.Covers ctx → site.members ⊆ U.members →
    RaisesFrom U.FormulaError ctx (env.attempt fuel site nonEmpty)
  constraintOf : ∀ ctx varied nonEmpty, U.Covers ctx →
    RaisesFrom U.FormulaError ctx (env.constraintOf fuel varied nonEmpty)
  mergeCalculated : ∀ ctx sources nonEmpty limiter, U.Covers ctx →
    (∀ s ∈ sources, s.members ⊆ U.members) →
    RaisesFrom U.FormulaError ctx (env.mergeCalculated fuel sources nonEmpty limiter)

variable (U) in
theorem raisesWithin_zero : U.RaisesWithin 0 := by
  have h : ∀ {α : Type} ctx, RaisesFrom U.FormulaError ctx (MonadExcept.throw fuelExhausted : EvalAt α) :=
    fun _ => quiet_throw (by simp [OlapError.NotCompile, OlapError.kind, fuelExhausted])
  exact ⟨fun ctx _ => h ctx, fun ctx _ => h ctx, fun ctx _ _ _ => h ctx, fun ctx _ _ _ _ => h ctx,
    fun ctx _ _ _ => h ctx, fun ctx _ _ _ _ => h ctx, fun ctx _ _ _ _ _ => h ctx,
    fun ctx _ _ _ _ => h ctx, fun ctx _ _ _ _ => h ctx, fun ctx _ _ _ => h ctx,
    fun ctx _ _ _ _ _ => h ctx⟩

namespace RaisesWithin

variable {k : Nat}

theorem bind_eval (ih : U.RaisesWithin k) (hctx : U.Covers ctx) {n : Node}
    (hn : n.members ⊆ U.members) {β : Type} {f : Value → EvalAt β}
    (hf : ∀ v, RaisesFrom U.FormulaError ctx (f v)) :
    RaisesFrom U.FormulaError ctx (env.eval k n >>= f) :=
  RaisesFrom.bind (ih.eval ctx n hctx hn) hf

theorem cellValue_succ (ih : U.RaisesWithin k) (hctx : U.Covers ctx) :
    RaisesFrom U.FormulaError ctx (env.cellValue (k + 1)) := by
  simp only [Env.cellValue]
  refine RaisesFrom.bind (quiet_liftEval env.check_notCompile) fun _ => RaisesFrom.read ?_
  split
  . exact quiet_liftEval (env.loadCell_notCompile ctx)
  next member hlead =>
  split
  . exact quiet_throw (by simp [OlapError.NotCompile, OlapError.kind])
  -- the member leading the cell is on the coordinate, so in the universe, and so is its formula
  have hmem := hctx.coordinate (Context.leadingCalculated_mem hlead)
  refine RaisesFrom.bind_of (RaisesFrom.liftEval (formulaNode_raises hmem))
    (YieldsIn.liftEval (I := U.Covers) fun _ node _ h => formulaNode_ok h) hctx fun node hnode => ?_
  exact RaisesFrom.deeper (ih.eval _ node hctx.deeper (U.formula_subset member hmem node hnode))

theorem isEmptyCell_succ (ih : U.RaisesWithin k) (hctx : U.Covers ctx) :
    RaisesFrom U.FormulaError ctx (env.isEmptyCell (k + 1)) := by
  simp only [Env.isEmptyCell]
  refine RaisesFrom.tryCatch (RaisesFrom.bind (ih.cellValue ctx hctx) fun _ => RaisesFrom.pure _)
    fun e he => ?_
  split
  . exact RaisesFrom.pure _
  . exact RaisesFrom.throw he

theorem evalArg_succ (ih : U.RaisesWithin k) (hctx : U.Covers ctx) (a : SetArg)
    (ha : Node.argMembers a ⊆ U.members) : RaisesFrom U.FormulaError ctx (env.evalArg (k + 1) a) := by
  cases a with
  | mk n style =>
    simp only [Env.evalArg]
    exact RaisesFrom.bind (ih.evalSet ctx n style hctx ha) fun _ => RaisesFrom.pure _

theorem dispatch_succ (ih : U.RaisesWithin k) (hctx : U.Covers ctx) (site : NativeSite)
    (nonEmpty : Bool) (hsite : site.members ⊆ U.members) :
    RaisesFrom U.FormulaError ctx (env.dispatch (k + 1) site nonEmpty) := by
  simp only [Env.dispatch]
  refine RaisesFrom.bind (ih.attempt ctx site nonEmpty hctx hsite) fun _ => ?_
  split
  . exact RaisesFrom.pure _
  split
  . exact RaisesFrom.pure _
  -- a required site the cube cannot serve fails as the configuration says
  split
  . exact quiet_throw (by simp [OlapError.NotCompile, OlapError.kind])
  . exact RaisesFrom.pure _

theorem attempt_succ (ih : U.RaisesWithin k) (hctx : U.Covers ctx) (site : NativeSite)
    (nonEmpty : Bool) (hsite : site.members ⊆ U.members) :
    RaisesFrom U.FormulaError ctx (env.attempt (k + 1) site nonEmpty) := by
  simp only [Env.attempt]
  split
  . exact RaisesFrom.pure _
  next plan hplan =>
  have hsources : ∀ s ∈ plan.sources, s.members ⊆ U.members := fun s hs m hm =>
    hsite (by simp only [NativeSite.members, hplan]; exact List.mem_flatMap.mpr ⟨s, hs, hm⟩)
  refine RaisesFrom.read ?_
  split
  . exact RaisesFrom.pure _
  split
  . exact RaisesFrom.throw_bind (.inl (by simp [OlapError.NotCompile, OlapError.kind]))
  refine RaisesFrom.bind (RaisesFrom.resolving _ (ih.constraintOf _ _ _ (hctx.resolving _)))
    fun _ => ?_
  split
  . exact RaisesFrom.pure _
  split
  . exact RaisesFrom.pure _
  refine RaisesFrom.bind (quiet_liftEval (Eval.Raises.modifies _)) fun _ => ?_
  refine RaisesFrom.bind (quiet_liftExcept (Cube.execute_notCompile _ _)) fun _ => ?_
  refine RaisesFrom.bind (keepLimited_raises _ _ fun _ _ => RaisesFrom.pure _) fun _ => ?_
  split
  . exact RaisesFrom.bind (ih.mergeCalculated ctx _ _ _ hctx hsources) fun _ => RaisesFrom.pure _
  . exact RaisesFrom.pure _

theorem constraintOf_succ (ih : U.RaisesWithin k) (hctx : U.Covers ctx) (varied : List Nat)
    (nonEmpty : Bool) : RaisesFrom U.FormulaError ctx (env.constraintOf (k + 1) varied nonEmpty) := by
  simp only [Env.constraintOf]
  refine RaisesFrom.read (RaisesFrom.bind (RaisesFrom.forIn_mem _ (fun member hmember _ => ?_) _)
    fun _ => ?_)
  . have hmem := hctx.coordinate hmember
    -- members of the hierarchies the operands vary are skipped
    split
    . exact RaisesFrom.pure _
    -- a measure is judged by its formula's text, which is not compiled
    split
    . split
      . exact RaisesFrom.pure _
      split
      . exact RaisesFrom.pure _
      split
      . split
        . exact RaisesFrom.pure _
        . exact RaisesFrom.pure _
      . exact RaisesFrom.pure _
    split
    . -- a calculated member is walked through the set its aggregate formula names
      refine RaisesFrom.bind_of (RaisesFrom.liftEval (formulaNode_raises hmem))
        (YieldsIn.liftEval (I := U.Covers) fun _ node _ h => formulaNode_ok h) hctx
        fun node hnode => ?_
      split
      . exact RaisesFrom.pure _
      next set hset =>
      obtain ⟨v, rfl⟩ := Node.aggregatedSet_eq_some hset
      have hformula := U.formula_subset member hmem _ hnode
      simp only [Node.members] at hformula
      refine RaisesFrom.bind (RaisesFrom.within _ (ih.evalArg _ set (hctx.apply_widen _)
        (List.Subset.trans (List.subset_append_left _ _) hformula))) fun _ => ?_
      -- the set's tuples decide the slicer entry, or why the member cannot be pushed down
      split
      . exact RaisesFrom.pure _
      split
      . exact RaisesFrom.pure _
      split
      . exact RaisesFrom.pure _
      split
      . exact RaisesFrom.pure _
      . exact RaisesFrom.pure _
    . split <;> exact RaisesFrom.pure _
  . split <;> exact RaisesFrom.pure _

theorem mergeCalculated_succ (ih : U.RaisesWithin k) (hctx : U.Covers ctx)
    (sources : List ArgSource) (nonEmpty : Bool) (limiter : Limiter)
    (hsources : ∀ s ∈ sources, s.members ⊆ U.members) :
    RaisesFrom U.FormulaError ctx (env.mergeCalculated (k + 1) sources nonEmpty limiter) := by
  simp only [Env.mergeCalculated, TupleStream.forIn_eq_forIn_toList, bind_pure]
  -- gathering the operands reads the cube only, and the product it builds is of the universe
  refine RaisesFrom.bind_of (RaisesFrom.forIn_mem _ (fun s _ _ => ?_) _)
    (YieldsIn.of_yields (Gathered.forIn_quiet (fun s _ => by cases s.stored <;> rfl) sources).yields)
    hctx fun st hst => ?_
  . split
    . exact quiet_bind (Cube.sourceMembers_notCompile _ _) fun _ => RaisesFrom.pure _
    . exact RaisesFrom.bind (RaisesFrom.pure _) fun _ => RaisesFrom.pure _
  have hproduct := U.gathered_tuples hsources hst
  refine quiet_bind (Limiter.ensureRoom_notCompile _ _) fun _ => ?_
  -- in keep-empty mode the room for every combination is checked first
  split
  case' isTrue => refine quiet_bind (Limiter.ensureRoom_notCompile _ _) fun _ => ?_
  -- the combinations with a calculated member, checked for emptiness in non-empty mode
  all_goals
    refine RaisesFrom.forIn_mem _ (fun t ht _ => ?_) _
    split
    . exact RaisesFrom.pure _
    refine RaisesFrom.bind (quiet_liftEval env.check_notCompile) fun _ => ?_
    split
    . refine RaisesFrom.bind (RaisesFrom.within _
        (ih.isEmptyCell _ (hctx.apply_tuple (hproduct t ht)))) fun _ => ?_
      split
      . exact RaisesFrom.pure _
      . exact quiet_bind (Limiter.push_notCompile _ _) fun _ => RaisesFrom.pure _
    . exact quiet_bind (Limiter.push_notCompile _ _) fun _ => RaisesFrom.pure _

theorem collect_succ (ih : U.RaisesWithin k) (hctx : U.Covers ctx) (set : SetArg)
    (value : Option Node) (hn : Node.argMembers set ++ Node.optMembers value ⊆ U.members) :
    RaisesFrom U.FormulaError ctx (env.collect (k + 1) set value) := by
  simp only [Env.collect]
  have hctx' := hctx.apply_nonEmpty false
  have hset := List.Subset.trans (List.subset_append_left _ _) hn
  refine RaisesFrom.within _ (RaisesFrom.bind_of (ih.evalArg _ set hctx' hset)
    ((U.staysAt k).evalArg set hset) hctx' fun s hs => ?_)
  refine RaisesFrom.bind (RaisesFrom.forIn_stream _ (fun t ht _ => ?_) _) fun _ => RaisesFrom.pure _
  rw [TupleSet.toList_stream] at ht
  have htuple := hctx'.apply_tuple (hs t ht)
  refine RaisesFrom.bind (quiet_liftEval env.check_notCompile) fun _ =>
    RaisesFrom.bind (RaisesFrom.within _ ?_) fun _ => ?_
  . -- the number read at the tuple: the value's, or else the cell's
    cases value with
    | none =>
      exact RaisesFrom.bind (ih.cellValue _ htuple) fun _ =>
        quiet_liftExcept (Value.toNumber_notCompile _)
    | some n =>
      exact RaisesFrom.bind (ih.eval _ n htuple (List.Subset.trans (List.subset_append_right _ _) hn))
        fun _ => quiet_liftExcept (Value.toNumber_notCompile _)
  . split <;> exact RaisesFrom.pure _

theorem collectPairs_succ (ih : U.RaisesWithin k) (hctx : U.Covers ctx) (set : SetArg)
    (y x : Option Node)
    (hn : Node.argMembers set ++ Node.optMembers y ++ Node.optMembers x ⊆ U.members) :
    RaisesFrom U.FormulaError ctx (env.collectPairs (k + 1) set y x) := by
  simp only [Env.collectPairs]
  have hctx' := hctx.apply_nonEmpty false
  have hset : Node.argMembers set ⊆ U.members := fun _ h => hn (by simp [h])
  refine RaisesFrom.within _ (RaisesFrom.bind_of (ih.evalArg _ set hctx' hset)
    ((U.staysAt k).evalArg set hset) hctx' fun s hs => ?_)
  refine RaisesFrom.bind (RaisesFrom.forIn_stream _ (fun t ht _ => ?_) _) fun _ => RaisesFrom.pure _
  rw [TupleSet.toList_stream] at ht
  have htuple := hctx'.apply_tuple (hs t ht)
  refine RaisesFrom.bind (quiet_liftEval env.check_notCompile) fun _ =>
    RaisesFrom.bind (RaisesFrom.within _ ?_) fun _ => ?_
  . -- the second coordinate is `y`'s number or else the cell's, the first `x`'s or else the position
    cases y
    case' none =>
      refine RaisesFrom.bind (ih.cellValue _ htuple) fun _ =>
        quiet_bind (Value.toNumber_notCompile _) fun _ => ?_
    case' some n =>
      refine ih.bind_eval htuple (fun _ h => hn (by simp [Node.optMembers, h])) fun _ =>
        quiet_bind (Value.toNumber_notCompile _) fun _ => ?_
    all_goals
      cases x
      . exact RaisesFrom.bind (RaisesFrom.pure _) fun _ => RaisesFrom.pure _
      . exact ih.bind_eval htuple (fun _ h => hn (by simp [Node.optMembers, h])) fun _ =>
          quiet_bind (Value.toNumber_notCompile _) fun _ => RaisesFrom.pure _
  . split <;> exact RaisesFrom.pure _

theorem eval_succ (ih : U.RaisesWithin k) (hctx : U.Covers ctx) (node : Node)
    (hn : node.members ⊆ U.members) : RaisesFrom U.FormulaError ctx (env.eval (k + 1) node) := by
  cases node
  -- a set node is evaluated as a set
  case levelMembers | children | enumerate | singleton | crossJoin | filter | topCount | head
    | order | generate =>
    simp only [Env.eval]
    exact RaisesFrom.bind (ih.evalSet ctx _ .list hctx hn) fun _ => RaisesFrom.pure _
  all_goals simp only [Node.members] at hn
  all_goals simp only [Env.eval]
  case const | memberConst => exact RaisesFrom.pure _
  case currentMember | slicer => exact RaisesFrom.read (RaisesFrom.pure _)
  case parent n | memberName n | memberToTuple n =>
    exact ih.bind_eval hctx hn fun _ => quiet_bind (Value.asMember_notCompile _) fun _ =>
      RaisesFrom.pure _
  case negate n | truncate n =>
    exact ih.bind_eval hctx hn fun _ => quiet_bind (Value.toNumber_notCompile _) fun _ =>
      RaisesFrom.pure _
  case not n =>
    exact ih.bind_eval hctx hn fun _ => quiet_bind (Value.toBoolean_notCompile _) fun _ =>
      RaisesFrom.pure _
  case toText n =>
    exact ih.bind_eval hctx hn fun _ => quiet_bind (Value.toText_notCompile _) fun _ =>
      RaisesFrom.pure _
  case isEmpty n | format n _ => exact ih.bind_eval hctx hn fun _ => RaisesFrom.pure _
  case tuple ns =>
    refine RaisesFrom.bind (RaisesFrom.forIn_mem ns (fun n hmem _ => ?_) _) fun _ => RaisesFrom.pure _
    refine ih.bind_eval hctx (List.Subset.trans (Node.subset_membersAll hmem) hn) fun _ =>
      quiet_bind (Value.asMember_notCompile _) fun _ => ?_
    -- a second member of one hierarchy is an evaluation error
    split
    . exact RaisesFrom.throw_bind (.inl (by simp [OlapError.NotCompile, OlapError.kind]))
    . exact RaisesFrom.pure _
  case coalesce ns _ =>
    refine RaisesFrom.bind (RaisesFrom.forIn_mem ns (fun n hmem _ => ?_) _) fun _ => ?_
    . refine ih.bind_eval hctx (List.Subset.trans (Node.subset_membersAll hmem) hn) fun _ => ?_
      split <;> exact RaisesFrom.pure _
    . split <;> exact RaisesFrom.pure _
  case arith op l r =>
    obtain ⟨hl, hr⟩ := List.append_subset.mp hn
    refine ih.bind_eval hctx hl fun _ => quiet_bind (Value.toNumber_notCompile _) fun _ => ?_
    split
    . exact RaisesFrom.pure _
    . exact ih.bind_eval hctx hr fun _ => quiet_bind (Value.toNumber_notCompile _) fun _ =>
        quiet_bind (ArithOp.apply_notCompile _ _ _) fun _ => RaisesFrom.pure _
  case compare op l r =>
    obtain ⟨hl, hr⟩ := List.append_subset.mp hn
    exact ih.bind_eval hctx hl fun _ => ih.bind_eval hctx hr fun _ =>
      quiet_liftExcept (compareValues_notCompile _ _ _)
  case logical conjunction l r =>
    obtain ⟨hl, hr⟩ := List.append_subset.mp hn
    refine ih.bind_eval hctx hl fun _ => quiet_bind (Value.toBoolean_notCompile _) fun _ => ?_
    split
    . exact RaisesFrom.pure _
    . exact ih.bind_eval hctx hr fun _ => quiet_bind (Value.toBoolean_notCompile _) fun _ =>
        RaisesFrom.pure _
  case iif c t e _ =>
    obtain ⟨⟨hc, ht⟩, he⟩ := List.append_subset.mp hn |>.imp_left List.append_subset.mp
    refine ih.bind_eval hctx hc fun _ => quiet_bind (Value.toBoolean_notCompile _) fun _ => ?_
    split
    . exact ih.eval ctx t hctx ht
    . exact ih.eval ctx e hctx he
  case formatWith v p =>
    obtain ⟨hv, hp⟩ := List.append_subset.mp hn
    exact ih.bind_eval hctx hv fun _ => ih.bind_eval hctx hp fun _ =>
      quiet_bind (Value.toText_notCompile _) fun _ => RaisesFrom.pure _
  case coerce n target =>
    refine ih.bind_eval hctx hn fun _ => ?_
    -- the conversion the target category asks for
    split
    . exact quiet_bind (Value.toNumber_notCompile _) fun _ => RaisesFrom.pure _
    . exact quiet_bind (Value.toInteger_notCompile _) fun _ => RaisesFrom.pure _
    . exact quiet_bind (Value.toBoolean_notCompile _) fun _ => RaisesFrom.pure _
    . exact quiet_bind (Value.toText_notCompile _) fun _ => RaisesFrom.pure _
    . exact RaisesFrom.pure _
  case memberValue t =>
    -- the cell is read at the tuple the operand gives, which is of the universe
    refine RaisesFrom.bind_of (ih.eval ctx t hctx hn) ((U.staysAt k).eval t hn) hctx fun v hv => ?_
    refine RaisesFrom.bind_of (quiet_liftExcept (Value.asTuple_notCompile v))
      (YieldsIn.liftExcept fun tuple h => List.Subset.trans (Value.subset_of_asTuple h) hv) hctx
      fun tuple htuple => ?_
    exact RaisesFrom.within _ (ih.cellValue _ (hctx.apply_tuple htuple))
  -- the aggregates compute from the numbers they collect
  case sum set v =>
    refine RaisesFrom.bind (ih.collect ctx set v hctx hn) fun _ => ?_
    split
    . exact RaisesFrom.pure _
    split
    . exact RaisesFrom.pure _
    . exact RaisesFrom.pure _
  case avg set v | dispersion set v _ _ =>
    exact RaisesFrom.bind (ih.collect ctx set v hctx hn) fun _ => RaisesFrom.pure _
  case extremum set v _ =>
    refine RaisesFrom.bind (ih.collect ctx set v hctx hn) fun _ => ?_
    split
    . exact RaisesFrom.pure _
    . exact RaisesFrom.pure _
  case aggregate set v =>
    refine RaisesFrom.read (RaisesFrom.bind (ih.collect ctx set v hctx hn) fun _ => ?_)
    split
    . exact RaisesFrom.pure _
    . exact RaisesFrom.pure _
  case percentile set v p =>
    obtain ⟨hset, hp⟩ := List.append_subset.mp hn
    -- the share is a fixed one or read from `p`
    cases p
    case' none => refine RaisesFrom.bind (RaisesFrom.pure _) fun _ => ?_
    case' some p =>
      refine ih.bind_eval hctx (by simpa only [Node.optMembers] using hp) fun _ =>
        quiet_bind (Value.toNumber_notCompile _) fun _ => RaisesFrom.bind (RaisesFrom.pure _) fun _ => ?_
    -- the numbers are collected only for a share
    all_goals
      split
      . exact RaisesFrom.pure _
      . exact RaisesFrom.bind (ih.collect ctx set v hctx hset) fun _ => RaisesFrom.pure _
  case regression stat point set y x =>
    have hpairs : Node.argMembers set ++ Node.optMembers (some y) ++ Node.optMembers x ⊆ U.members :=
      fun _ h => hn (by simp only [List.mem_append, Node.optMembers] at h ⊢; tauto)
    -- the forecast point, when there is one, is read from `point`
    cases point
    case' none => refine RaisesFrom.bind (RaisesFrom.pure _) fun _ => ?_
    case' some p =>
      refine ih.bind_eval hctx (fun _ h => hn (by simp [Node.optMembers, h])) fun _ =>
        quiet_bind (Value.toNumber_notCompile _) fun _ => ?_
      split
      all_goals refine RaisesFrom.bind (RaisesFrom.pure _) fun _ => ?_
    -- with a forecast the pairs are collected and fitted
    all_goals
      split
      . exact RaisesFrom.pure _
      . refine RaisesFrom.bind (ih.collectPairs ctx set (some y) x hctx hpairs) fun _ => ?_
        split <;> exact RaisesFrom.pure _
  case pairwise stat set x y =>
    refine RaisesFrom.bind (ih.collectPairs ctx set y (some x) hctx
      (fun _ h => hn (by simp only [List.mem_append, Node.optMembers] at h ⊢; tauto))) fun _ => ?_
    split
    . exact RaisesFrom.pure _
    . exact RaisesFrom.pure _
  case count set exclude =>
    have hctx' := hctx.apply_nonEmpty false
    split
    . exact RaisesFrom.bind (RaisesFrom.within _ (ih.evalArg _ set hctx' hn)) fun _ =>
        RaisesFrom.pure _
    . -- the tuples whose cells are not empty are counted one by one
      refine RaisesFrom.within _ (RaisesFrom.bind_of (ih.evalArg _ set hctx' hn)
        ((U.staysAt k).evalArg set hn) hctx' fun s hs => ?_)
      refine RaisesFrom.bind (RaisesFrom.forIn_stream _ (fun t ht _ => ?_) _) fun _ =>
        RaisesFrom.pure _
      rw [TupleSet.toList_stream] at ht
      refine RaisesFrom.bind (quiet_liftEval env.check_notCompile) fun _ => RaisesFrom.bind
        (RaisesFrom.within _ (ih.isEmptyCell _ (hctx'.apply_tuple (hs t ht)))) fun _ => ?_
      split <;> exact RaisesFrom.pure _

theorem filter_succ (ih : U.RaisesWithin k) (hctx : U.Covers ctx) (set : SetArg) (c : Node)
    (site : NativeSite) (style : ResultStyle) (hn : (Node.filter set c site).members ⊆ U.members) :
    RaisesFrom U.FormulaError ctx (env.evalSet (k + 1) (.filter set c site) style) := by
  simp only [Node.members] at hn
  simp only [Env.evalSet]
  have hset : Node.argMembers set ⊆ U.members := fun _ h => hn (by simp [h])
  have hc : c.members ⊆ U.members := fun _ h => hn (by simp [h])
  have hsite : site.members ⊆ U.members := fun _ h => hn (by simp [h])
  refine RaisesFrom.bind (ih.dispatch ctx site false hctx hsite) fun _ => ?_
  split
  . exact RaisesFrom.pure _
  -- the condition is evaluated at each tuple of the operand
  refine RaisesFrom.bind_of (ih.evalArg ctx set hctx hset) ((U.staysAt k).evalArg set hset) hctx
    fun s hs => ?_
  refine RaisesFrom.bind (RaisesFrom.forIn_stream _ (fun t ht _ => ?_) _) fun _ => RaisesFrom.pure _
  rw [TupleSet.toList_stream] at ht
  refine RaisesFrom.bind (quiet_liftEval env.check_notCompile) fun _ =>
    RaisesFrom.bind (RaisesFrom.within _ ?_) fun _ => ?_
  . exact RaisesFrom.bind (ih.eval _ c (hctx.apply_tuple (hs t ht)) hc) fun _ =>
      RaisesFrom.bind (quiet_liftExcept (Value.toBoolean_notCompile _)) fun _ => RaisesFrom.pure _
  . split <;> exact RaisesFrom.pure _

theorem topCount_succ (ih : U.RaisesWithin k) (hctx : U.Covers ctx) (set : SetArg) (count : Node)
    (measure : Option Node) (site : Option NativeSite) (top : Bool) (style : ResultStyle)
    (hn : (Node.topCount set count measure site top).members ⊆ U.members) :
    RaisesFrom U.FormulaError ctx (env.evalSet (k + 1) (.topCount set count measure site top) style) := by
  simp only [Node.members] at hn
  simp only [Env.evalSet]
  have hset : Node.argMembers set ⊆ U.members := fun _ h => hn (by simp [h])
  have hcount : count.members ⊆ U.members := fun _ h => hn (by simp [h])
  -- the native site first, when there is one
  cases site
  case' none => refine RaisesFrom.bind (RaisesFrom.pure _) fun _ => ?_
  case' some site =>
    refine RaisesFrom.bind (ih.dispatch ctx site false hctx fun _ h => hn (by simp [h])) fun _ => ?_
  all_goals
    split
    . exact RaisesFrom.pure _
    refine RaisesFrom.bind (ih.eval ctx count hctx hcount) fun _ => ?_
    refine RaisesFrom.bind (quiet_liftExcept (Value.toInteger_notCompile _)) fun _ => ?_
    refine RaisesFrom.bind_of (ih.evalArg ctx set hctx hset) ((U.staysAt k).evalArg set hset) hctx
      fun s hs => ?_
    cases measure with
    | none => exact RaisesFrom.pure _
    | some m =>
      -- the measure is evaluated at each tuple of the operand
      have hm : m.members ⊆ U.members := fun _ h => hn (by simp [Node.optMembers, h])
      refine RaisesFrom.bind (RaisesFrom.forIn_mem _ (fun t ht _ => ?_) _) fun _ => RaisesFrom.pure _
      refine RaisesFrom.bind (quiet_liftEval env.check_notCompile) fun _ => ?_
      exact RaisesFrom.bind (RaisesFrom.within _ (RaisesFrom.bind
        (ih.eval _ m (hctx.apply_tuple (hs t ht)) hm)
        fun _ => quiet_liftExcept (Value.toNumber_notCompile _))) fun _ => RaisesFrom.pure _

theorem head_succ (ih : U.RaisesWithin k) (hctx : U.Covers ctx) (set : SetArg)
    (count : Option Node) (style : ResultStyle) (hn : (Node.head set count).members ⊆ U.members) :
    RaisesFrom U.FormulaError ctx (env.evalSet (k + 1) (.head set count) style) := by
  simp only [Node.members] at hn
  simp only [Env.evalSet]
  have hset := List.Subset.trans (List.subset_append_left _ _) hn
  -- how many tuples to take, then the operand
  cases count with
  | none =>
    refine RaisesFrom.bind (RaisesFrom.pure _) fun _ =>
      RaisesFrom.bind (ih.evalArg ctx set hctx hset) fun _ => ?_
    split <;> exact RaisesFrom.pure _
  | some c =>
    have hc : c.members ⊆ U.members := List.Subset.trans (List.subset_append_right _ _) hn
    refine RaisesFrom.bind (ih.eval ctx c hctx hc) fun _ =>
      RaisesFrom.bind (quiet_liftExcept (Value.toInteger_notCompile _)) fun _ =>
      RaisesFrom.bind (RaisesFrom.pure _) fun _ =>
      RaisesFrom.bind (ih.evalArg ctx set hctx hset) fun _ => ?_
    split <;> exact RaisesFrom.pure _

theorem order_succ (ih : U.RaisesWithin k) (hctx : U.Covers ctx) (set : SetArg) (key : Node)
    (descending : Bool) (style : ResultStyle)
    (hn : (Node.order set key descending).members ⊆ U.members) :
    RaisesFrom U.FormulaError ctx (env.evalSet (k + 1) (.order set key descending) style) := by
  simp only [Node.members] at hn
  simp only [Env.evalSet]
  have hset := List.Subset.trans (List.subset_append_left _ _) hn
  have hkey := List.Subset.trans (List.subset_append_right _ _) hn
  -- the key is evaluated at each tuple of the operand
  refine RaisesFrom.bind_of (ih.evalArg ctx set hctx hset) ((U.staysAt k).evalArg set hset) hctx
    fun s hs => ?_
  refine RaisesFrom.bind (RaisesFrom.forIn_mem _ (fun t ht _ => ?_) _) fun _ => RaisesFrom.pure _
  refine RaisesFrom.bind (quiet_liftEval env.check_notCompile) fun _ => ?_
  exact RaisesFrom.bind (RaisesFrom.within _ (ih.eval _ key (hctx.apply_tuple (hs t ht)) hkey))
    fun _ => RaisesFrom.pure _

theorem evalSet_succ (ih : U.RaisesWithin k) (hctx : U.Covers ctx) (node : Node)
    (style : ResultStyle) (hn : node.members ⊆ U.members) :
    RaisesFrom U.FormulaError ctx (env.evalSet (k + 1) node style) := by
  cases node
  -- the other nodes are evaluated as values, which must be sets
  case const | memberConst | currentMember | parent | memberName | tuple | memberToTuple | arith
    | negate | compare | logical | not | iif | isEmpty | coalesce | format | formatWith | coerce
    | truncate | toText | memberValue | sum | avg | extremum | percentile | dispersion | regression
    | pairwise | count | aggregate =>
    simp only [Env.evalSet]
    refine RaisesFrom.bind (ih.eval ctx _ hctx hn) fun _ => ?_
    split
    . exact RaisesFrom.pure _
    . exact RaisesFrom.pure _
    . exact quiet_throw (by simp [OlapError.NotCompile, OlapError.kind])
  -- filtering, ranking, taking and sorting walk an operand's tuples
  case filter set c site => exact filter_succ ih hctx set c site style hn
  case topCount set count measure site top =>
    exact topCount_succ ih hctx set count measure site top style hn
  case head set count => exact head_succ ih hctx set count style hn
  case order set key descending => exact order_succ ih hctx set key descending style hn
  all_goals simp only [Node.members] at hn
  all_goals simp only [Env.evalSet]
  case levelMembers =>
    exact RaisesFrom.bind (quiet_liftExcept (Cube.levelMembers_notCompile _ _)) fun _ =>
      RaisesFrom.pure _
  case slicer => exact RaisesFrom.read (RaisesFrom.pure _)
  case children n =>
    refine RaisesFrom.bind (ih.eval ctx n hctx hn) fun _ => ?_
    split
    . exact RaisesFrom.pure _
    . exact RaisesFrom.pure _
    . exact quiet_throw (by simp [OlapError.NotCompile, OlapError.kind])
  case singleton n =>
    refine RaisesFrom.bind (ih.eval ctx n hctx hn) fun _ => ?_
    split
    . exact RaisesFrom.pure _
    . exact RaisesFrom.pure _
    . exact RaisesFrom.pure _
    . exact quiet_throw (by simp [OlapError.NotCompile, OlapError.kind])
  case enumerate items _ =>
    refine RaisesFrom.bind (RaisesFrom.forIn_mem items (fun it hit _ => ?_) _) fun _ =>
      RaisesFrom.pure _
    have hitem := List.Subset.trans (Node.subset_itemMembers hit) hn
    cases it with
    | single n =>
      simp only [Node.itemMembers, List.append_nil] at hitem
      refine RaisesFrom.bind (ih.eval ctx n hctx hitem) fun _ => ?_
      split
      . exact RaisesFrom.pure _
      . exact RaisesFrom.pure _
      . exact RaisesFrom.pure _
      . exact RaisesFrom.throw_bind (.inl (by simp [OlapError.NotCompile, OlapError.kind]))
    | splice a =>
      simp only [Node.itemMembers, List.append_nil] at hitem
      refine RaisesFrom.bind (ih.evalArg ctx a hctx hitem) fun _ => ?_
      exact RaisesFrom.bind (RaisesFrom.forIn_stream _ (fun _ _ _ => RaisesFrom.pure _) _) fun _ =>
        RaisesFrom.pure _
  case crossJoin args site force =>
    have hargs : ∀ a ∈ args, Node.argMembers a ⊆ U.members := fun a ha =>
      List.Subset.trans (Node.subset_argsMembers ha)
        (List.Subset.trans (List.subset_append_left _ _) hn)
    have hsite : site.members ⊆ U.members := List.Subset.trans (List.subset_append_right _ _) hn
    refine RaisesFrom.read (RaisesFrom.bind (ih.dispatch ctx site _ hctx hsite) fun _ => ?_)
    split
    . exact RaisesFrom.pure _
    -- the operands' tuples, then their product
    refine RaisesFrom.bind_of (RaisesFrom.forIn_mem args (fun a ha _ => ?_) _)
      (YieldsIn.forIn_mem (J := fun lists : Array (List Tuple) => ∀ l ∈ lists.toList, U.Tuples l)
        args (fun a ha lists hlists => ?_) #[] (fun _ h => absurd h List.not_mem_nil))
      hctx fun lists hlists => ?_
    . exact RaisesFrom.bind (ih.evalArg ctx a hctx (hargs a ha)) fun _ => RaisesFrom.pure _
    . exact YieldsIn.bind ((U.staysAt k).evalArg a (hargs a ha)) fun s hs =>
        YieldsIn.pure (forall_mem_toList_push hlists hs)
    have hproduct : U.Tuples (TupleStream.product lists.toList).toList :=
      Universe.Tuples.cartesian hlists
    split
    . -- keeping empty tuples, the product is held to the result limit and delivered
      split
      . exact RaisesFrom.throw_bind (.inl (by simp [OlapError.NotCompile, OlapError.kind]))
      split
      . exact RaisesFrom.pure _
      . exact RaisesFrom.bind (RaisesFrom.forIn_stream _ (fun _ _ _ =>
          RaisesFrom.bind (quiet_liftEval env.check_notCompile) fun _ => RaisesFrom.pure _) _)
          fun _ => RaisesFrom.pure _
    . -- dropping them, each tuple's cell is read under the widened slicer
      exact RaisesFrom.within _ (RaisesFrom.bind (keepLimited_raises _ _ fun t ht =>
        RaisesFrom.within _ (ih.isEmptyCell _ ((hctx.apply_widen _).apply_tuple (hproduct t ht))))
        fun _ => RaisesFrom.pure _)
  case generate source each all =>
    have hsource := List.Subset.trans (List.subset_append_left _ _) hn
    have heach := List.Subset.trans (List.subset_append_right _ _) hn
    refine RaisesFrom.bind_of (ih.evalArg ctx source hctx hsource)
      ((U.staysAt k).evalArg source hsource) hctx fun s hs => ?_
    exact RaisesFrom.bind (generateLimited_raises _ s (fun t ht => RaisesFrom.within _
      (ih.evalArg _ each (hctx.apply_tuple (hs t ht)) heach)) all) fun _ => RaisesFrom.pure _

theorem succ (ih : U.RaisesWithin k) : U.RaisesWithin (k + 1) where
  cellValue _ hctx := ih.cellValue_succ hctx
  isEmptyCell _ hctx := ih.isEmptyCell_succ hctx
  eval _ n hctx hn := ih.eval_succ hctx n hn
  evalSet _ n style hctx hn := ih.evalSet_succ hctx n style hn
  evalArg _ a hctx ha := ih.evalArg_succ hctx a ha
  collect _ set v hctx hn := ih.collect_succ hctx set v hn
  collectPairs _ set y x hctx hn := ih.collectPairs_succ hctx set y x hn
  dispatch _ site nonEmpty hctx hsite := ih.dispatch_succ hctx site nonEmpty hsite
  attempt _ site nonEmpty hctx hsite := ih.attempt_succ hctx site nonEmpty hsite
  constraintOf _ varied nonEmpty hctx := ih.constraintOf_succ hctx varied nonEmpty
  mergeCalculated _ sources nonEmpty l hctx hsources :=
    ih.mergeCalculated_succ hctx sources nonEmpty l hsources

end RaisesWithin

variable (U) in
theorem raisesWithin : ∀ k, U.RaisesWithin k
  | 0 => U.raisesWithin_zero
  | k + 1 => (raisesWithin k).succ

end Env.Universe

/-! ## Queries -/

namespace Eval.Raises

variable {α β : Type} {E : OlapError → Prop}

theorem bind_of {P : α → Prop} {x : Eval α} {f : α → Eval β} (hx : Eval.Raises E x)
    (hP : ∀ c a, (x.run.run c).1 = .ok a → P a) (hf : ∀ a, P a → Eval.Raises E (f a)) :
    Eval.Raises E (x >>= f) := by
  intro c e h
  rw [EvalOn.run_bind] at h
  rcases hr : x.run.run c with ⟨e' | a, c'⟩ <;> rw [hr] at h
  . cases h
    exact hx c _ (by rw [hr])
  . exact hf a (hP c a (by rw [hr])) c' e h

end Eval.Raises

/-- The members a compiled query starts from: the default members of the cube's hierarchies and
the members its axes and its slicer name. -/
def PreparedQuery.seed (q : PreparedQuery) (cube : Cube) : List Member :=
  (Context.initial cube).coordinate ++ q.axes.flatMap (fun a => Node.argMembers a.1) ++
    (q.slicer.map Node.argMembers).getD []

namespace Env.Universe

open EvalAt

variable {env : Env}

/-- `V` reaches past `U` only by members that roll a compound slicer up over a member of `U`. -/
structure Widens (U V : env.Universe) : Prop where
  subset : U.members ⊆ V.members
  new : ∀ m ∈ V.members, m ∈ U.members ∨ ∃ r ∈ U.members, m = slicerMember r

theorem Widens.refl (U : env.Universe) : U.Widens U :=
  ⟨List.Subset.refl _, fun _ hm => .inl hm⟩

theorem widens_slicerMember (seed : List Member) {r : Member}
    (hr : r ∈ (Universe.of env seed).members) :
    (Universe.of env seed).Widens (Universe.of env (seed ++ [slicerMember r])) := by
  refine ⟨fun m hm => ?_, fun m hm => ?_⟩
  . obtain ⟨x, hx, hm⟩ := List.mem_flatMap.mp hm
    exact List.mem_flatMap.mpr ⟨x, by simp only [List.mem_append] at hx ⊢; tauto, hm⟩
  . obtain ⟨x, hx, hm⟩ := List.mem_flatMap.mp hm
    rw [← List.append_assoc, List.mem_append, List.mem_singleton] at hx
    rcases hx with hx | rfl
    . exact .inl (List.mem_flatMap.mpr ⟨x, hx, hm⟩)
    simp only [slicerMember, Member.calculated, Member.subterms, Member.parentSubterms,
      MemberKind.subterms, Exp.subterms, Exp.subtermsAll, List.append_nil, List.mem_cons] at hm
    rcases hm with rfl | hm
    . exact .inr ⟨r, hr, rfl⟩
    -- a subterm of `r` is in the universe with `r`
    obtain ⟨y, hy, hry⟩ := List.mem_flatMap.mp hr
    exact .inl (List.mem_flatMap.mpr ⟨y, hy, Member.subterms_subset hry hm⟩)

/-- The errors a query may raise from a universe: an error of the cell or the fatal kind, or the
error of compiling, as a value, the formula of a member of the universe or of the member that
rolls a compound slicer up over one of them. -/
def QueryError (U : env.Universe) (err : OlapError) : Prop :=
  err.NotCompile ∨ ∃ m, (m ∈ U.members ∨ ∃ r ∈ U.members, m = slicerMember r) ∧
    ∃ f, m.formula = some f ∧ env.functions.compile f.1 .value = .error err

theorem Widens.queryError {U V : env.Universe} (h : U.Widens V) {err : OlapError}
    (he : V.FormulaError err) : U.QueryError err := by
  rcases he with he | ⟨m, hm, f, hf, hc⟩
  . exact .inl he
  . exact .inr ⟨m, h.new m hm, f, hf, hc⟩

variable {U : env.Universe}

theorem cellTuple_subset {axes : List (List Tuple)} (h : ∀ l ∈ axes, U.Tuples l)
    (positions : List Nat) :
    ((axes.zip positions).flatMap fun ap => ap.1.getD ap.2 []) ⊆ U.members := by
  intro m hm
  obtain ⟨⟨axis, p⟩, hmem, hm⟩ := List.mem_flatMap.mp hm
  simp only [List.getD_eq_getElem?_getD] at hm
  cases hp : axis[p]? with
  | none => simp [hp] at hm
  | some t =>
    rw [hp, Option.getD_some] at hm
    exact h axis (List.of_mem_zip hmem).1 t (List.mem_of_getElem? hp) hm

theorem queryCells_raises {ctx : Context} (hctx : U.Covers ctx) (q : PreparedQuery)
    (hq : ∀ a ∈ q.axes, Node.argMembers a.1 ⊆ U.members) (hasData : Bool) :
    RaisesFrom U.FormulaError ctx (env.queryCells q hasData) := by
  have h := U.raisesWithin evalFuel
  simp only [Env.queryCells, Env.setValue, Env.cell]
  -- the tuples of every axis, each of the universe
  refine RaisesFrom.bind_of (RaisesFrom.forIn_mem q.axes (fun a ha _ => ?_) _)
    (YieldsIn.forIn_mem (J := fun lists : Array (List Tuple) => ∀ l ∈ lists.toList, U.Tuples l)
      q.axes (fun a ha lists hlists => ?_) #[] (fun _ h => absurd h List.not_mem_nil))
    hctx fun lists hlists => ?_
  . obtain ⟨set, nonEmpty⟩ := a
    exact RaisesFrom.bind (RaisesFrom.within _ (h.evalArg _ set (hctx.apply_nonEmpty _) (hq _ ha)))
      fun _ => RaisesFrom.pure _
  . obtain ⟨set, nonEmpty⟩ := a
    exact YieldsIn.bind (YieldsIn.within _ (fun _ hc => hc.apply_nonEmpty _)
      ((U.staysAt evalFuel).evalArg set (hq _ ha))) fun s hs =>
      YieldsIn.pure (forall_mem_toList_push hlists hs)
  -- every cell, read at the tuple its positions pick
  refine RaisesFrom.bind (RaisesFrom.forIn_mem _ (fun offset _ _ => ?_) _) fun _ =>
    RaisesFrom.pure _
  split
  . exact RaisesFrom.pure _
  have htuple := hctx.apply_tuple (cellTuple_subset hlists (cellPositions
    (lists.toList.map List.length) offset))
  refine RaisesFrom.bind (RaisesFrom.within _ (RaisesFrom.tryCatch
    (RaisesFrom.bind (h.cellValue _ htuple) fun _ => RaisesFrom.pure _) fun e he => ?_)) fun _ =>
    RaisesFrom.pure _
  split
  . exact RaisesFrom.pure _
  . exact RaisesFrom.throw he

theorem Widens.covers {V : env.Universe} (h : U.Widens V) {ctx : Context} (hctx : U.Covers ctx) :
    V.Covers ctx :=
  ⟨List.Subset.trans hctx.coordinate h.subset, fun t ht => List.Subset.trans (hctx.slicer t ht) h.subset⟩

theorem applySlicer_raises {ctx : Context} (hctx : U.Covers ctx) {s : SetArg}
    (hs : Node.argMembers s ⊆ U.members) : Eval.Raises U.FormulaError (env.applySlicer ctx s) := by
  unfold Env.applySlicer
  refine Eval.Raises.bind ((U.raisesWithin evalFuel).evalArg ctx s hctx hs) fun _ => ?_
  -- no tuple, one tuple, or several that the roll-up member aggregates: each is placed at once
  dsimp only
  split
  . exact Eval.Raises.pure _
  . exact Eval.Raises.pure _
  split
  . exact Eval.Raises.pure _
  . exact Eval.Raises.pure _

theorem applySlicer_covers {seed : List Member} {ctx : Context}
    (hctx : (Universe.of env seed).Covers ctx)
    (hdefaults : env.cube.hierarchies.map (·.defaultMember) ⊆ (Universe.of env seed).members)
    {s : SetArg} (hs : Node.argMembers s ⊆ (Universe.of env seed).members) {c : Counters}
    {ctx' : Context} (h : ((env.applySlicer ctx s).run.run c).1 = .ok (some ctx')) :
    ∃ V, (Universe.of env seed).Widens V ∧ V.Covers ctx' := by
  simp only [Env.applySlicer, Env.setValue] at h
  rw [EvalOn.run_bind] at h
  rcases hr : (((env.evalArg evalFuel s : EvalAt TupleSet).run ctx).run.run c) with ⟨_ | ts, c'⟩ <;>
    rw [hr] at h
  . cases h
  have hts := (Universe.staysAt _ evalFuel).evalArg s hs ctx hctx c ts (by rw [hr])
  dsimp only at h
  -- no tuple, one tuple, or several that the roll-up member aggregates
  split at h
  . cases h
  . rename_i t heq
    cases h
    have ht : t ⊆ (Universe.of env seed).members := hts t (by rw [heq]; exact List.mem_singleton_self t)
    exact ⟨_, Widens.refl _, (hctx.setTuple ht).coordinate, hts⟩
  . rename_i t rest _ heq
    split at h
    . cases h
    rename_i first _
    cases h
    -- the roll-up member hangs under the default member of the first member's hierarchy
    have hroot : ((env.cube.hierarchy? first.hierarchy).map (·.defaultMember)).getD first ∈
        (Universe.of env seed).members := by
      cases hh : env.cube.hierarchy? first.hierarchy with
      | none => exact hts _ (by rw [heq]; exact List.mem_cons_self) List.mem_cons_self
      | some hier => exact hdefaults (List.mem_map.mpr ⟨hier, List.mem_of_getElem? hh, rfl⟩)
    have hV := widens_slicerMember seed hroot
    refine ⟨_, hV, ((hV.covers hctx).setMember (Universe.seed_subset env _ (by simp))).coordinate,
      fun u hu => List.Subset.trans (hts u hu) hV.subset⟩

theorem queryAt_raises (q : PreparedQuery) :
    Eval.Raises (Universe.of env (q.seed env.cube)).QueryError (env.queryAt q) := by
  have hseed := Universe.seed_subset env (q.seed env.cube)
  have hdefaults : env.cube.hierarchies.map (·.defaultMember) ⊆
      (Universe.of env (q.seed env.cube)).members :=
    fun m hm => hseed (by simp only [PreparedQuery.seed, Context.initial, List.mem_append]; tauto)
  have hbase : (Universe.of env (q.seed env.cube)).Covers (Context.initial env.cube) :=
    ⟨hdefaults, Tuples.nil⟩
  have hq : ∀ a ∈ q.axes, Node.argMembers a.1 ⊆ (Universe.of env (q.seed env.cube)).members :=
    fun a ha m hm => hseed (by
      simp only [PreparedQuery.seed, List.mem_append, List.mem_flatMap]
      exact .inl (.inr ⟨a, ha, hm⟩))
  -- the cells are read at a context that a widening of the universe covers
  have hcells : ∀ ctx hasData, (∃ V, (Universe.of env (q.seed env.cube)).Widens V ∧ V.Covers ctx) →
      Eval.Raises (Universe.of env (q.seed env.cube)).QueryError
        ((env.queryCells q hasData : EvalAt CellSet).run ctx) := by
    rintro ctx hasData ⟨V, hV, hctx⟩
    exact Eval.Raises.imp (queryCells_raises hctx q (fun a ha => List.Subset.trans (hq a ha)
      hV.subset) hasData) fun _ he => hV.queryError he
  unfold Env.queryAt
  dsimp only
  simp only [pure_bind]
  split
  . rename_i s hs
    have hslicer : Node.argMembers s ⊆ (Universe.of env (q.seed env.cube)).members :=
      fun m hm => hseed (by simp [PreparedQuery.seed, hs, hm])
    have hplaced : ∀ c o, ((env.applySlicer (Context.initial env.cube) s).run.run c).1 = .ok o →
        ∀ ctx', o = some ctx' → ∃ V, (Universe.of env (q.seed env.cube)).Widens V ∧ V.Covers ctx' :=
      fun _ _ h _ hctx' => applySlicer_covers hbase hdefaults hslicer (hctx' ▸ h)
    refine Eval.Raises.bind_of ((applySlicer_raises hbase hslicer).imp fun _ he =>
      (Widens.refl _).queryError he) hplaced fun o ho => ?_
    cases o with
    | none => exact hcells _ _ ⟨_, Widens.refl _, hbase⟩
    | some ctx' => exact hcells _ _ (ho ctx' rfl)
  . exact hcells _ _ ⟨_, Widens.refl _, hbase⟩

end Env.Universe

namespace Env

/-- Evaluation fails with a compile-kind error only where compiling, as a value, the formula of a
calculated member it reaches fails with that error: a member of the universe the cube, the
starting context and the node generate, for a node's value and a set operand; for a whole query,
a member of the universe its seed generates or the member rolling its compound slicer up. -/
theorem compile_errors_come_from_formulas (env : Env)
    (hcube : ∀ i (h : Hierarchy), env.cube.hierarchies[i]? = some h → h.defaultMember.hierarchy = i)
    {err : OlapError} (hk : err.kind = .compile) :
    (∀ node ctx c, (((env.value node : EvalAt Value).run ctx).run.run c).1 = .error err →
      ∃ m ∈ (Universe.of env (ctx.seed node)).members, ∃ f, m.formula = some f ∧
        env.functions.compile f.1 .value = .error err) ∧
    (∀ node style ctx c,
      (((env.setValue (.mk node style) : EvalAt TupleSet).run ctx).run.run c).1 = .error err →
      ∃ m ∈ (Universe.of env (ctx.seed node)).members, ∃ f, m.formula = some f ∧
        env.functions.compile f.1 .value = .error err) ∧
    (∀ q c, ((env.runQuery q).run.run c).1 = .error err →
      ∃ m, (m ∈ (Universe.of env (q.seed env.cube)).members ∨
          ∃ r ∈ (Universe.of env (q.seed env.cube)).members, m = slicerMember r) ∧
        ∃ f, m.formula = some f ∧ env.functions.compile f.1 .value = .error err) := by
  have hquiet : ¬ err.NotCompile := not_not_intro hk
  refine ⟨fun node ctx c h => ?_, fun node style ctx c h => ?_, fun q c h => ?_⟩
  . have hseed := Universe.seed_subset env (ctx.seed node)
    have hnode : node.members ⊆ (Universe.of env (ctx.seed node)).members :=
      fun m hm => hseed (by simp [Context.seed, hm])
    exact (((Universe.of env _).raisesWithin evalFuel).eval ctx node
      (Universe.covers_seed env ctx node) hnode c err h).resolve_left hquiet
  . have hseed := Universe.seed_subset env (ctx.seed node)
    have hnode : node.members ⊆ (Universe.of env (ctx.seed node)).members :=
      fun m hm => hseed (by simp [Context.seed, hm])
    exact (((Universe.of env _).raisesWithin evalFuel).evalArg ctx (.mk node style)
      (Universe.covers_seed env ctx node) hnode c err h).resolve_left hquiet
  . rw [EvalOn.runQuery_eq_queryAt hcube] at h
    exact (Universe.queryAt_raises q c err h).resolve_left hquiet

theorem exists_error_of_probe {α β : Type} {r : Except OlapError α} {g : OlapError → β} {b : β}
    (h : ((r.map fun _ => (none : Option β)).tryCatch fun e => pure (some (g e))).toOption =
      some (some b)) : ∃ e, r = .error e ∧ g e = b := by
  cases r with
  | ok a => cases h
  | error e =>
    cases h
    exact ⟨e, rfl, rfl⟩

/-- A calculated measure whose formula calls a function that does not exist, leading the cell a
node reads: the compile error comes out of the evaluation, and it is that formula's. -/
theorem compile_errors_come_from_formulas_leading_member :
    let bad : Member :=
      .calculatedMeasure 0 "Bad" (.call "Frobnicate" .function [.literal (.integer 1)]) 0
    let env : Env := ⟨⟨[], [], [], [], [], true⟩, FunctionTable.builtins, {}, false, false⟩
    let node : Node := .memberValue (.const (.tuple []) (.tuple 0))
    let ctx : Context := ⟨[bad], false, [], 0, []⟩
    ∃ err : OlapError, err.kind = .compile ∧
      (((env.value node : EvalAt Value).run ctx).run.run {}).1 = .error err ∧
      ∃ m ∈ (Universe.of env (ctx.seed node)).members, ∃ f, m.formula = some f ∧
        env.functions.compile f.1 .value = .error err := by
  intro bad env node ctx
  have hprobe : (((((env.value node : EvalAt Value).run ctx).run.run {}).1.map
      fun _ => (none : Option ErrorKind)).tryCatch fun e => pure (some e.kind)).toOption =
      some (some .compile) := by
    decide +kernel
  obtain ⟨err, hrun, hk⟩ := exists_error_of_probe hprobe
  exact ⟨err, hk, hrun, (compile_errors_come_from_formulas env (fun _ _ hh => by cases hh) hk).1
    node ctx {} hrun⟩

/-- A query asking for a stored measure and a calculated measure whose formula calls a function
that does not exist compiles, and then fails as a whole with the compile error of the formula:
the error is not confined to the calculated measure's cell. -/
theorem formula_compile_error_fails_query :
    let bad : Member :=
      .calculatedMeasure 0 "Bad" (.call "Frobnicate" .function [.literal (.integer 1)]) 0
    let query : QuerySpec :=
      ⟨[{ set := .call "\x7b\x7d" .braces [.member (.measure 0 "Sales" .sum 0), .member bad] }],
        none⟩
    ∃ cube q e, Presets.sales = .ok cube ∧ FunctionTable.builtins.prepare query = .ok q ∧
      ((Env.runQuery ⟨cube, .builtins, {}, false, false⟩ q).run.run {}).1 = .error e ∧
      e.variant = "NoMatchingFunction" ∧ e.kind = .compile ∧
      e.message = "no function Frobnicate matches signature Frobnicate(integer)" := by
  intro bad query
  -- the run, with its error read off as the answer reports it
  have hrun : (Presets.sales.toOption.bind fun cube =>
      (FunctionTable.builtins.prepare query).toOption.map fun q =>
        ((((Env.runQuery ⟨cube, .builtins, {}, false, false⟩ q).run.run {}).1.map
          fun _ => (none : Option (String × ErrorKind × String))).tryCatch
            fun e => pure (some (e.variant, e.kind, e.message))).toOption) =
      some (some (some ("NoMatchingFunction", .compile,
        "no function Frobnicate matches signature Frobnicate(integer)"))) := by
    decide +kernel
  cases hcube : Presets.sales with
  | error e =>
    rw [hcube] at hrun
    cases hrun
  | ok cube =>
    cases hq : FunctionTable.builtins.prepare query with
    | error e =>
      rw [hcube, hq] at hrun
      cases hrun
    | ok q =>
      simp only [hcube, hq, Except.toOption, Option.bind_some, Option.map_some,
        Option.some.injEq] at hrun
      cases hr : ((Env.runQuery ⟨cube, .builtins, {}, false, false⟩ q).run.run {}).1 with
      | ok a =>
        rw [hr] at hrun
        cases hrun
      | error e =>
        rw [hr] at hrun
        have he : some (some (e.variant, e.kind, e.message)) = some (some ("NoMatchingFunction",
            ErrorKind.compile, "no function Frobnicate matches signature Frobnicate(integer)")) :=
          hrun
        simp only [Option.some.injEq, Prod.mk.injEq] at he
        exact ⟨cube, q, e, rfl, rfl, hr, he⟩

end Env

end OlapCalc
