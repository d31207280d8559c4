import OlapCalc.Proofs.Savepoint
import OlapCalc.Eval.Query

/-!
Nested evaluations give the context back.

`EvalOn` keeps the context in an evaluator and changes it in place; `EvalAt` passes it down.
`EvalOn.Agrees m r` says that from every well-formed evaluator `m` computes what `r` computes at
the evaluator's context, with the same counts, and hands the evaluator back with that context
and the same savepoints outstanding, whether it succeeds or fails. Every operation of the two
monads agrees with its twin, and agreement is kept by binding, loops and handlers; the
evaluator is built from these alone, so each of its functions agrees with itself at the two
instances (by induction on the nesting bound).

Main statements: evaluating a node, a set or a set operand on an evaluator reached by any
context calls leaves its context (coordinate, non-empty flag, slicer, nesting depth, native
expressions being resolved) and its outstanding savepoints as they were, whichever way the
evaluation ends; and a query run on a fresh evaluator computes every cell at the context its
axis tuples give, whatever the cells before it did.
-/

namespace OlapCalc

namespace Evaluator

/-- `ev'` is `ev` handed back: the same context, and the same savepoints outstanding, restoring
the same contexts. -/
structure Returns (ev ev' : Evaluator) : Prop where
  wf : ev'.WF
  id : ev'.id = ev.id
  ctx : ev'.ctx = ev.ctx
  saved : ev'.saved = ev.saved

theorem Returns.refl {ev : Evaluator} (hwf : ev.WF) : Returns ev ev := ⟨hwf, rfl, rfl, rfl⟩

theorem Returns.trans {ev₁ ev₂ ev₃ : Evaluator} (h₁ : Returns ev₁ ev₂) (h₂ : Returns ev₂ ev₃) :
    Returns ev₁ ev₃ :=
  ⟨h₂.wf, h₂.id.trans h₁.id, h₂.ctx.trans h₁.ctx, h₂.saved.trans h₁.saved⟩

theorem setContextTuple_ctx (ev : Evaluator) (t : Tuple) :
    (ev.setContextTuple t).ctx = ev.ctx.setTuple t := by
  induction t generalizing ev with
  | nil => rfl
  | cons m t ih =>
    show ((ev.setContext m).setContextTuple t).ctx = (ev.ctx.setMember m).setTuple t
    rw [ih, setContext_ctx]

theorem setNonEmpty_ctx (ev : Evaluator) (b : Bool) :
    (ev.setNonEmpty b).ctx = { ev.ctx with nonEmpty := b } := by
  unfold setNonEmpty
  split
  . next h =>
    rw [← beq_iff_eq.mp h]
  . rw [record_ctx]

theorem widenSlicer_ctx (ev : Evaluator) (hs : List Nat) :
    (ev.widenSlicer hs).ctx = ev.ctx.widenSlicer hs := by
  unfold widenSlicer Context.widenSlicer setSlicer
  split <;> simp only [record_ctx]

theorem keeps_enter {ev : Evaluator} (hwf : ev.WF) : ∀ o : Overlay, Keeps ev (o.enter ev)
  | .tuple t => keeps_setContextTuple hwf t
  | .nonEmpty b => keeps_setNonEmpty hwf b
  | .widen hs => keeps_widenSlicer hwf hs

theorem enter_ctx (ev : Evaluator) : ∀ o : Overlay, (o.enter ev).ctx = o.apply ev.ctx
  | .tuple t => setContextTuple_ctx ev t
  | .nonEmpty b => setNonEmpty_ctx ev b
  | .widen hs => widenSlicer_ctx ev hs

theorem restore_mark {ev ev₁ : Evaluator} (hwf₁ : ev₁.WF) (hid : ev₁.id = ev.id)
    (hsaved : ev₁.saved = ev.mark.1.saved) :
    ∃ ev₂, ev₁.restore ev.mark.2 = .ok ev₂ ∧ Returns ev ev₂ := by
  have hsaved' : ev₁.saved = ev.saved ++ [(ev.nextSerial, ev.ctx)] := hsaved.trans (saved_mark ev)
  have hlen : ev.saved.length < ev₁.saved.length := by simp [hsaved']
  have hlast : ev₁.saved[ev.saved.length] = (ev.nextSerial, ev.ctx) := by simp [hsaved']
  have hout : ev.mark.2.serial ∈ ev₁.outstanding := by
    rw [outstanding_eq_saved, hsaved']
    simp
  obtain ⟨ev₂, h₂⟩ := restore_ok (by simp [hid]) hout
  obtain ⟨hwf₂, hid₂, -, pos, hpos, hserial, hctx, hsaved₂⟩ := restore_spec hwf₁ h₂
  -- serial numbers are unique, so the restored savepoint is the last one
  have hpos' : pos = ev.saved.length :=
    saved_index_eq hwf₁ hpos hlen (by rw [hserial, hlast]; rfl)
  subst hpos'
  refine ⟨ev₂, h₂, hwf₂, hid₂.trans hid, ?_, ?_⟩
  . rw [hctx, hlast]
  . rw [hsaved₂, hsaved', List.take_left]

/-- A change of the context that journal entries never touch: the nesting depth, the native
expressions being resolved. -/
structure Untracked (f : Context → Context) : Prop where
  coordinate : ∀ c, (f c).coordinate = c.coordinate
  revert : ∀ c u, f (Undo.revert c u) = Undo.revert (f c) u

theorem Untracked.foldl {f : Context → Context} (hf : Untracked f) (us : List Undo)
    (c : Context) : f (us.foldl Undo.revert c) = us.foldl Undo.revert (f c) := by
  induction us generalizing c with
  | nil => rfl
  | cons u us ih => rw [List.foldl_cons, List.foldl_cons, ih, hf.revert]

theorem Untracked.saved {f : Context → Context} (hf : Untracked f) (ev : Evaluator) :
    ({ ev with ctx := f ev.ctx }).saved = ev.saved.map fun p => (p.1, f p.2) := by
  simp only [Evaluator.saved, rewind, List.map_map]
  apply List.map_congr_left
  intro m _
  simp [hf.foldl]

theorem Untracked.wf {f : Context → Context} (hf : Untracked f) {ev : Evaluator} (hwf : ev.WF) :
    ({ ev with ctx := f ev.ctx }).WF :=
  ⟨by simpa [hf.coordinate] using hwf.placed, hwf.len_le, hwf.len_sorted, hwf.serial_sorted,
    hwf.serial_lt, hwf.journal_nil⟩

theorem Untracked.returns {f g : Context → Context} (hf : Untracked f) (hg : Untracked g)
    (hgf : ∀ c, g (f c) = c) {ev ev₁ : Evaluator} (h : Returns { ev with ctx := f ev.ctx } ev₁) :
    Returns ev { ev₁ with ctx := g ev₁.ctx } := by
  refine ⟨hg.wf h.wf, h.id, ?_, ?_⟩
  . show g ev₁.ctx = ev.ctx
    rw [h.ctx, hgf]
  . rw [hg.saved, h.saved, hf.saved, List.map_map]
    conv => rhs; rw [← List.map_id ev.saved]
    apply List.map_congr_left
    intro p _
    simp [hgf]

theorem untracked_depth (d : Nat → Nat) : Untracked fun c => { c with depth := d c.depth } :=
  ⟨fun _ => rfl, fun _ u => by cases u <;> rfl⟩

theorem untracked_resolving (r : List String → List String) :
    Untracked fun c => { c with resolving := r c.resolving } :=
  ⟨fun _ => rfl, fun _ u => by cases u <;> rfl⟩

end Evaluator

namespace EvalOn

variable {α β : Type}

/-- `m` on a well-formed evaluator computes what `r` computes at its context, counts the same,
and gives the evaluator back. -/
def Agrees (m : EvalOn α) (r : EvalAt α) : Prop :=
  ∀ ev c, ev.WF → ∃ ev', m.run.run (ev, c) =
    (((r.run ev.ctx).run.run c).1, ev', ((r.run ev.ctx).run.run c).2) ∧ ev.Returns ev'

section Run

variable {σ : Type}

theorem run_bind (x : ExceptT OlapError (StateM σ) α) (f : α → ExceptT OlapError (StateM σ) β)
    (s : σ) :
    (x >>= f).run.run s =
      match x.run.run s with
      | (.ok a, s) => (f a).run.run s
      | (.error e, s) => (.error e, s) := by
  simp only [ExceptT.run_bind, StateT.run_bind]
  rcases x.run.run s with ⟨_ | _, s⟩ <;> rfl

theorem run_tryCatch (x : ExceptT OlapError (StateM σ) α)
    (h : OlapError → ExceptT OlapError (StateM σ) α) (s : σ) :
    (tryCatch x h).run.run s =
      match x.run.run s with
      | (.ok a, s) => (.ok a, s)
      | (.error e, s) => (h e).run.run s := by
  rw [ExceptT.run_tryCatch, StateT.run_bind]
  rcases x.run.run s with ⟨_ | _, s⟩ <;> rfl

end Run

namespace Agrees

theorem pure (a : α) : Agrees (Pure.pure a) (Pure.pure a) :=
  fun ev _ hwf => ⟨ev, rfl, .refl hwf⟩

theorem throw (e : OlapError) : Agrees (α := α) (MonadExcept.throw e) (MonadExcept.throw e) :=
  fun ev _ hwf => ⟨ev, rfl, .refl hwf⟩

theorem liftEval (x : Eval α) : Agrees (EvalMonad.liftEval x) (EvalMonad.liftEval x) :=
  fun ev _ hwf => ⟨ev, rfl, .refl hwf⟩

theorem liftExcept (x : Except OlapError α) : Agrees (OlapCalc.liftExcept x) (OlapCalc.liftExcept x) := by
  cases x with
  | ok a => exact pure a
  | error e => exact throw e

theorem context : Agrees EvalMonad.context EvalMonad.context :=
  fun ev _ hwf => ⟨ev, rfl, .refl hwf⟩

theorem bind {m : EvalOn α} {r : EvalAt α} {f : α → EvalOn β} {g : α → EvalAt β}
    (hm : Agrees m r) (hf : ∀ a, Agrees (f a) (g a)) : Agrees (m >>= f) (r >>= g) := by
  intro ev c hwf
  obtain ⟨ev₁, h₁, hr₁⟩ := hm ev c hwf
  rw [run_bind, h₁, ReaderT.run_bind, run_bind]
  rcases ((r.run ev.ctx).run.run c) with ⟨_ | a, c₁⟩
  . exact ⟨ev₁, rfl, hr₁⟩
  . obtain ⟨ev₂, h₂, hr₂⟩ := hf a ev₁ c₁ hr₁.wf
    rw [hr₁.ctx] at h₂
    exact ⟨ev₂, h₂, hr₁.trans hr₂⟩

theorem within (o : Overlay) {m : EvalOn α} {r : EvalAt α} (h : Agrees m r) :
    Agrees (EvalMonad.within o m) (EvalMonad.within o r) := by
  intro ev c hwf
  have hk := Evaluator.keeps_enter (Evaluator.mark_wf hwf) o
  obtain ⟨ev₁, h₁, hr₁⟩ := h _ c hk.wf
  obtain ⟨ev₂, h₂, hr₂⟩ :=
    @Evaluator.restore_mark ev ev₁ hr₁.wf (hr₁.id.trans hk.id) (hr₁.saved.trans hk.saved)
  refine ⟨ev₂, ?_, hr₂⟩
  have hctx : (o.enter ev.mark.1).ctx = o.apply ev.ctx := Evaluator.enter_ctx _ o
  rw [hctx] at h₁
  show (EvalOn.within o m).run.run (ev, c) = _
  simp only [EvalOn.within, ExceptT.run_mk, StateT.run] at h₁ ⊢
  rw [h₁]
  simp only [h₂]
  rfl

theorem deeper {m : EvalOn α} {r : EvalAt α} (h : Agrees m r) :
    Agrees (EvalMonad.deeper m) (EvalMonad.deeper r) := by
  intro ev c hwf
  have hf := Evaluator.untracked_depth (· + 1)
  obtain ⟨ev₁, h₁, hr₁⟩ := h ev.descend c (hf.wf hwf)
  refine ⟨ev₁.ascend, ?_, hf.returns (Evaluator.untracked_depth (· - 1)) (fun _ => rfl) hr₁⟩
  show (EvalOn.deeper m).run.run (ev, c) = _
  simp only [EvalOn.deeper, ExceptT.run_mk, StateT.run] at h₁ ⊢
  rw [h₁]
  rfl

theorem resolving (key : String) {m : EvalOn α} {r : EvalAt α} (h : Agrees m r) :
    Agrees (EvalMonad.resolving key m) (EvalMonad.resolving key r) := by
  intro ev c hwf
  have hf := Evaluator.untracked_resolving (· ++ [key])
  obtain ⟨ev₁, h₁, hr₁⟩ := h (ev.enterNative key) c (hf.wf hwf)
  refine ⟨ev₁.leaveNative key, ?_, hf.returns
    (Evaluator.untracked_resolving fun l => (l.reverse.erase key).reverse) (fun _ => ?_) hr₁⟩
  . show (EvalOn.resolving key m).run.run (ev, c) = _
    simp only [EvalOn.resolving, ExceptT.run_mk, StateT.run] at h₁ ⊢
    rw [h₁]
    rfl
  . simp

theorem tryCatch {m : EvalOn α} {r : EvalAt α} {f : OlapError → EvalOn α}
    {g : OlapError → EvalAt α} (hm : Agrees m r) (hf : ∀ e, Agrees (f e) (g e)) :
    Agrees (MonadExcept.tryCatch m f) (MonadExcept.tryCatch r g) := by
  intro ev c hwf
  obtain ⟨ev₁, h₁, hr₁⟩ := hm ev c hwf
  have hr : (MonadExcept.tryCatch r g).run ev.ctx =
      MonadExcept.tryCatch (r.run ev.ctx) (fun e => (g e).run ev.ctx) := rfl
  rw [run_tryCatch, h₁, hr, run_tryCatch]
  rcases (r.run ev.ctx).run.run c with ⟨_ | a, c₁⟩
  . obtain ⟨ev₂, h₂, hr₂⟩ := hf _ ev₁ c₁ hr₁.wf
    rw [hr₁.ctx] at h₂
    exact ⟨ev₂, h₂, hr₁.trans hr₂⟩
  . exact ⟨ev₁, rfl, hr₁⟩

theorem forIn_list {γ : Type} {f : γ → β → EvalOn (ForInStep β)}
    {g : γ → β → EvalAt (ForInStep β)} (h : ∀ x b, Agrees (f x b) (g x b)) (xs : List γ) (b : β) :
    Agrees (forIn xs b f) (forIn xs b g) := by
  induction xs generalizing b with
  | nil => exact pure b
  | cons x xs ih =>
    rw [List.forIn_cons, List.forIn_cons]
    refine bind (h x b) fun step => ?_
    cases step with
    | done b => exact pure b
    | yield b => exact ih b

theorem foldlM {γ : Type} {f : β → γ → EvalOn β} {g : β → γ → EvalAt β}
    (h : ∀ b x, Agrees (f b x) (g b x)) (xs : List γ) (b : β) :
    Agrees (xs.foldlM f b) (xs.foldlM g b) := by
  induction xs generalizing b with
  | nil => exact pure b
  | cons x xs ih =>
    rw [List.foldlM_cons, List.foldlM_cons]
    exact bind (h b x) ih

theorem feedProduct {f : Tuple → β → EvalOn (ForInStep β)} {g : Tuple → β → EvalAt (ForInStep β)}
    (h : ∀ t b, Agrees (f t b) (g t b)) :
    ∀ (lists : List (List Tuple)) (pre : Tuple) (b : β),
      Agrees (TupleStream.feedProduct f lists pre b) (TupleStream.feedProduct g lists pre b)
  | [], pre, b => by
    rw [TupleStream.feedProduct, TupleStream.feedProduct]
    exact h pre b
  | l :: rest, pre, b => by
    rw [TupleStream.feedProduct, TupleStream.feedProduct]
    refine foldlM (fun step t => ?_) l _
    cases step with
    | done b => exact pure _
    | yield b => exact feedProduct h rest (pre ++ t) b

theorem feed {γ : Type} {f : Tuple → γ → EvalOn (ForInStep γ)}
    {g : Tuple → γ → EvalAt (ForInStep γ)} (h : ∀ t b, Agrees (f t b) (g t b))
    (s : TupleStream) (b : γ) : Agrees (TupleStream.feed f s b) (TupleStream.feed g s b) := by
  induction s generalizing γ with
  | list ts =>
    rw [TupleStream.feed, TupleStream.feed]
    refine foldlM (fun step t => ?_) ts _
    cases step with
    | done b => exact pure _
    | yield b => exact h t b
  | product lists =>
    cases lists with
    | nil => exact pure _
    | cons l rest =>
      rw [TupleStream.feed, TupleStream.feed]
      . exact feedProduct h (l :: rest) [] b
      all_goals exact List.cons_ne_nil l rest
  | take n s ih =>
    rw [TupleStream.feed, TupleStream.feed]
    split
    . exact pure _
    -- the first `n` tuples are fed to a body that counts them down
    . refine bind (ih (fun t acc => bind (h t acc.1) fun step => ?_) (b, n)) fun step => ?_
      . cases step with
        | done b => exact pure _
        | yield b =>
          split
          . exact pure _
          . exact pure _
      . cases step with
        | done r => exact pure _
        | yield r => exact pure _

theorem forIn_stream {f : Tuple → β → EvalOn (ForInStep β)} {g : Tuple → β → EvalAt (ForInStep β)}
    (h : ∀ t b, Agrees (f t b) (g t b)) (s : TupleStream) (b : β) :
    Agrees (forIn s b f) (forIn s b g) := by
  refine bind (feed h s b) fun step => ?_
  cases step with
  | done b => exact pure b
  | yield b => exact pure b

end Agrees

section Evaluator

variable (env : Env)

/-- Every function of the evaluator agrees with itself at nesting bound `fuel`. -/
structure AgreesAt (fuel : Nat) : Prop where
  cellValue : Agrees (env.cellValue fuel) (env.cellValue fuel)
  isEmptyCell : Agrees (env.isEmptyCell fuel) (env.isEmptyCell fuel)
  eval : ∀ node, Agrees (env.eval fuel node) (env.eval fuel node)
  collect : ∀ set value, Agrees (env.collect fuel set value) (env.collect fuel set value)
  collectPairs : ∀ set y x,
    Agrees (env.collectPairs fuel set y x) (env.collectPairs fuel set y x)
  evalArg : ∀ arg, Agrees (env.evalArg fuel arg) (env.evalArg fuel arg)
  evalSet : ∀ node style, Agrees (env.evalSet fuel node style) (env.evalSet fuel node style)
  dispatch : ∀ site nonEmpty,
    Agrees (env.dispatch fuel site nonEmpty) (env.dispatch fuel site nonEmpty)
  attempt : ∀ site nonEmpty,
    Agrees (env.attempt fuel site nonEmpty) (env.attempt fuel site nonEmpty)
  constraintOf : ∀ varied nonEmpty,
    Agrees (env.constraintOf fuel varied nonEmpty) (env.constraintOf fuel varied nonEmpty)
  mergeCalculated : ∀ sources nonEmpty limiter,
    Agrees (env.mergeCalculated fuel sources nonEmpty limiter)
      (env.mergeCalculated fuel sources nonEmpty limiter)

variable {env}

namespace Agrees

theorem keepLimited (env : Env) (l : Limiter) (tuples : TupleStream) {d₁ : Tuple → EvalOn Bool}
    {d₂ : Tuple → EvalAt Bool} (h : ∀ t, Agrees (d₁ t) (d₂ t)) :
    Agrees (env.keepLimited l tuples d₁) (env.keepLimited l tuples d₂) := by
  simp only [Env.keepLimited]
  refine bind (forIn_stream (fun t _ => ?_) _ _) fun _ => pure _
  refine bind (liftEval _) fun _ => bind (h t) fun _ => ?_
  split
  . exact bind (liftExcept _) fun _ => pure _
  . exact pure _

theorem generateLimited (env : Env) (l : Limiter) (source : TupleSet)
    {each₁ : Tuple → EvalOn TupleSet} {each₂ : Tuple → EvalAt TupleSet}
    (h : ∀ t, Agrees (each₁ t) (each₂ t)) (all : Bool) :
    Agrees (env.generateLimited l source each₁ all) (env.generateLimited l source each₂ all) := by
  simp only [Env.generateLimited]
  refine bind (forIn_stream (fun t _ => ?_) _ _) fun _ => pure _
  refine bind (liftEval _) fun _ => bind (h t) fun _ =>
    bind (forIn_list (fun _ _ => ?_) _ _) fun _ => pure _
  -- each generated tuple is pushed, unless it was seen already and repeats are dropped
  split
  . exact bind (liftExcept _) fun _ => pure _
  . split
    . exact bind (liftExcept _) fun _ => pure _
    . exact pure _

end Agrees

namespace AgreesAt

/-! One level of each function of the evaluator agrees with itself when the level below does:
each case applies the rule of the operation it unfolds to. -/

variable {fuel : Nat} (ih : AgreesAt env fuel)
include ih

theorem cellValue_succ : Agrees (env.cellValue (fuel + 1)) (env.cellValue (fuel + 1)) := by
  simp only [Env.cellValue]
  refine .bind (.liftEval _) fun _ => .bind .context fun _ => ?_
  split
  . exact .liftEval _
  . split
    . exact .throw _
    . exact .bind (.liftEval _) fun node => .deeper (ih.eval node)

theorem isEmptyCell_succ : Agrees (env.isEmptyCell (fuel + 1)) (env.isEmptyCell (fuel + 1)) := by
  simp only [Env.isEmptyCell]
  refine .tryCatch (.bind ih.cellValue fun _ => .pure _) fun _ => ?_
  split
  . exact .pure _
  . exact .throw _

theorem eval_succ (node : Node) : Agrees (env.eval (fuel + 1) node) (env.eval (fuel + 1) node) := by
  cases node <;> simp only [Env.eval]
  case const | memberConst => exact .pure _
  case currentMember | slicer => exact .bind .context fun _ => .pure _
  case isEmpty | format => exact .bind (ih.eval _) fun _ => .pure _
  -- one operand, converted and wrapped
  case parent | memberName | memberToTuple | negate | not | truncate | toText =>
    exact .bind (ih.eval _) fun _ => .bind (.liftExcept _) fun _ => .pure _
  -- a set node is evaluated as a set
  case levelMembers | children | enumerate | singleton | crossJoin | filter | topCount | head
    | order | generate =>
    exact .bind (ih.evalSet _ _) fun _ => .pure _
  case tuple =>
    refine .bind (.forIn_list (fun _ _ => ?_) _ _) fun _ => .pure _
    refine .bind (ih.eval _) fun _ => .bind (.liftExcept _) fun _ => ?_
    split
    . exact .bind (.throw _) fun _ => .pure _
    . exact .pure _
  case arith =>
    refine .bind (ih.eval _) fun _ => .bind (.liftExcept _) fun _ => ?_
    split
    . exact .pure _
    . exact .bind (ih.eval _) fun _ => .bind (.liftExcept _) fun _ =>
        .bind (.liftExcept _) fun _ => .pure _
  case compare =>
    exact .bind (ih.eval _) fun _ => .bind (ih.eval _) fun _ => .liftExcept _
  case logical =>
    refine .bind (ih.eval _) fun _ => .bind (.liftExcept _) fun _ => ?_
    split
    . exact .pure _
    . exact .bind (ih.eval _) fun _ => .bind (.liftExcept _) fun _ => .pure _
  case iif =>
    refine .bind (ih.eval _) fun _ => .bind (.liftExcept _) fun _ => ?_
    split
    . exact ih.eval _
    . exact ih.eval _
  case coalesce =>
    refine .bind (.forIn_list (fun _ _ => .bind (ih.eval _) fun _ => ?_) _ _) fun _ => ?_
    . split
      . exact .pure _
      . exact .pure _
    . split
      . exact .pure _
      . exact .pure _
  case formatWith =>
    exact .bind (ih.eval _) fun _ => .bind (ih.eval _) fun _ => .bind (.liftExcept _) fun _ => .pure _
  case coerce =>
    refine .bind (ih.eval _) fun _ => ?_
    -- a conversion to one of four categories, or the value as it is
    split
    . exact .bind (.liftExcept _) fun _ => .pure _
    . exact .bind (.liftExcept _) fun _ => .pure _
    . exact .bind (.liftExcept _) fun _ => .pure _
    . exact .bind (.liftExcept _) fun _ => .pure _
    . exact .pure _
  case memberValue =>
    exact .bind (ih.eval _) fun _ => .bind (.liftExcept _) fun _ => .within _ ih.cellValue
  case sum =>
    refine .bind (ih.collect _ _) fun _ => ?_
    split
    . exact .pure _
    . split
      . exact .pure _
      . exact .pure _
  case avg | dispersion => exact .bind (ih.collect _ _) fun _ => .pure _
  case extremum =>
    refine .bind (ih.collect _ _) fun _ => ?_
    split
    . exact .pure _
    . exact .pure _
  case percentile =>
    -- the share is read first, from the percent operand when there is one
    split
    case' h_1 => refine .bind (.pure _) fun _ => ?_
    case' h_2 =>
      refine .bind (ih.eval _) fun _ => .bind (.liftExcept _) fun _ => .bind (.pure _) fun _ => ?_
    all_goals
      split
      . exact .pure _
      . exact .bind (ih.collect _ _) fun _ => .pure _
  case regression =>
    -- the forecast point is read first, when there is one, and the fit is made after it
    split
    case' h_1 => refine .bind (.pure _) fun _ => ?_
    case' h_2 =>
      refine .bind (ih.eval _) fun _ => .bind (.liftExcept _) fun _ => ?_
      split
      all_goals refine .bind (.pure _) fun _ => ?_
    all_goals
      split
      . exact .pure _
      . refine .bind (ih.collectPairs _ _ _) fun _ => ?_
        split
        . exact .pure _
        . exact .pure _
  case pairwise =>
    refine .bind (ih.collectPairs _ _ _) fun _ => ?_
    split
    . exact .pure _
    . exact .pure _
  case count =>
    split
    . exact .bind (.within _ (ih.evalArg _)) fun _ => .pure _
    . -- the tuples whose cells are not empty are counted one by one
      refine .within _ (.bind (ih.evalArg _) fun _ => .bind (.forIn_stream (fun _ _ => ?_) _ _)
        fun _ => .pure _)
      refine .bind (.liftEval _) fun _ => .bind (.within _ ih.isEmptyCell) fun _ => ?_
      split
      . exact .pure _
      . exact .pure _
  case aggregate =>
    refine .bind .context fun _ => .bind (ih.collect _ _) fun _ => ?_
    split
    . exact .pure _
    . exact .pure _

theorem collect_succ (set : SetArg) (value : Option Node) :
    Agrees (env.collect (fuel + 1) set value) (env.collect (fuel + 1) set value) := by
  simp only [Env.collect]
  refine .within _ (.bind (ih.evalArg _) fun _ =>
    .bind (.forIn_stream (fun _ _ => ?_) _ _) fun _ => .pure _)
  refine .bind (.liftEval _) fun _ => .bind (.within _ ?_) fun _ => ?_
  . -- the number read at the tuple: the value's, or else the cell's
    split
    . exact .bind (ih.eval _) fun _ => .liftExcept _
    . exact .bind ih.cellValue fun _ => .liftExcept _
  . split
    . exact .pure _
    . exact .pure _

theorem collectPairs_succ (set : SetArg) (y x : Option Node) :
    Agrees (env.collectPairs (fuel + 1) set y x) (env.collectPairs (fuel + 1) set y x) := by
  simp only [Env.collectPairs]
  refine .within _ (.bind (ih.evalArg _) fun _ =>
    .bind (.forIn_stream (fun _ _ => ?_) _ _) fun _ => .pure _)
  refine .bind (.liftEval _) fun _ => .bind (.within _ ?_) fun _ => ?_
  . -- the second coordinate is y's number or else the cell's, the first x's or else the position
    split
    case' h_1 => refine .bind (ih.eval _) fun _ => .bind (.liftExcept _) fun _ => ?_
    case' h_2 => refine .bind ih.cellValue fun _ => .bind (.liftExcept _) fun _ => ?_
    all_goals
      split
      . exact .bind (ih.eval _) fun _ => .bind (.liftExcept _) fun _ => .pure _
      . exact .bind (.pure _) fun _ => .pure _
  . split
    . exact .pure _
    . exact .pure _

theorem evalArg_succ (arg : SetArg) :
    Agrees (env.evalArg (fuel + 1) arg) (env.evalArg (fuel + 1) arg) := by
  cases arg
  simp only [Env.evalArg]
  exact .bind (ih.evalSet _ _) fun _ => .pure _

theorem evalSet_succ (node : Node) (style : ResultStyle) :
    Agrees (env.evalSet (fuel + 1) node style) (env.evalSet (fuel + 1) node style) := by
  cases node <;> simp only [Env.evalSet]
  case levelMembers => exact .bind (.liftExcept _) fun _ => .pure _
  case children =>
    refine .bind (ih.eval _) fun _ => ?_
    split
    . exact .pure _
    . exact .pure _
    . exact .throw _
  case enumerate =>
    refine .bind (.forIn_list (fun _ _ => ?_) _ _) fun _ => .pure _
    -- an item is one node's member or tuple, or a spliced set
    split
    . refine .bind (ih.eval _) fun _ => ?_
      split
      . exact .pure _
      . exact .pure _
      . exact .pure _
      . exact .bind (.throw _) fun _ => .pure _
    . exact .bind (ih.evalArg _) fun _ =>
        .bind (.forIn_stream (fun _ _ => .pure _) _ _) fun _ => .pure _
  case singleton =>
    refine .bind (ih.eval _) fun _ => ?_
    split
    . exact .pure _
    . exact .pure _
    . exact .pure _
    . exact .throw _
  case slicer => exact .bind .context fun _ => .pure _
  case crossJoin =>
    refine .bind .context fun _ => .bind (ih.dispatch _ _) fun _ => ?_
    split
    . exact .pure _
    refine .bind (.forIn_list (fun _ _ => .bind (ih.evalArg _) fun _ => .pure _) _ _) fun _ => ?_
    split
    . -- empty tuples kept: a bound on the product, then the product lazily or walked
      split
      case' isTrue => refine .bind (.throw _) fun _ => ?_
      all_goals
        split
        . exact .pure _
        . exact .bind (.forIn_stream (fun _ _ => .bind (.liftEval _) fun _ => .pure _) _ _)
            fun _ => .pure _
    . -- empty tuples dropped: one limited walk under the widened slicer
      exact .within _ (.bind (.keepLimited env _ _ fun _ => .within _ ih.isEmptyCell) fun _ => .pure _)
  case filter =>
    refine .bind (ih.dispatch _ _) fun _ => ?_
    split
    . exact .pure _
    refine .bind (ih.evalArg _) fun _ =>
      .bind (.forIn_stream (fun _ _ => ?_) _ _) fun _ => .pure _
    refine .bind (.liftEval _) fun _ => .bind (.within _ (.bind (ih.eval _) fun _ =>
      .bind (.liftExcept _) fun _ => .pure _)) fun _ => ?_
    split
    . exact .pure _
    . exact .pure _
  case topCount =>
    -- the native site first, when there is one
    split
    case' h_1 => refine .bind (ih.dispatch _ _) fun _ => ?_
    case' h_2 => refine .bind (.pure _) fun _ => ?_
    all_goals
      split
      . exact .pure _
      refine .bind (ih.eval _) fun _ => .bind (.liftExcept _) fun _ => .bind (ih.evalArg _) fun _ => ?_
      split
      . exact .pure _
      . refine .bind (.forIn_list (fun _ _ => ?_) _ _) fun _ => .pure _
        exact .bind (.liftEval _) fun _ =>
          .bind (.within _ (.bind (ih.eval _) fun _ => .liftExcept _)) fun _ => .pure _
  case head =>
    -- the count first, when there is one
    split
    case' h_1 => refine .bind (ih.eval _) fun _ => .bind (.liftExcept _) fun _ => ?_
    all_goals
      refine .bind (.pure _) fun _ => .bind (ih.evalArg _) fun _ => ?_
      split
      . exact .pure _
      . exact .pure _
  case order =>
    refine .bind (ih.evalArg _) fun _ => .bind (.forIn_list (fun _ _ => ?_) _ _) fun _ => .pure _
    exact .bind (.liftEval _) fun _ => .bind (.within _ (ih.eval _)) fun _ => .pure _
  case generate =>
    exact .bind (ih.evalArg _) fun _ =>
      .bind (.generateLimited env _ _ (fun _ => .within _ (ih.evalArg _)) _) fun _ => .pure _
  -- every other node is a value, which has to be a set
  all_goals
    refine .bind (ih.eval _) fun _ => ?_
    split
    . exact .pure _
    . exact .pure _
    . exact .throw _

theorem dispatch_succ (site : NativeSite) (nonEmpty : Bool) :
    Agrees (env.dispatch (fuel + 1) site nonEmpty) (env.dispatch (fuel + 1) site nonEmpty) := by
  simp only [Env.dispatch]
  refine .bind (ih.attempt _ _) fun _ => ?_
  split
  . exact .pure _
  -- a plan that does not apply hands back nothing, or fails when it must apply
  split
  . exact .pure _
  split
  . exact .throw _
  . exact .pure _

theorem attempt_succ (site : NativeSite) (nonEmpty : Bool) :
    Agrees (env.attempt (fuel + 1) site nonEmpty) (env.attempt (fuel + 1) site nonEmpty) := by
  simp only [Env.attempt]
  split
  . exact .pure _
  refine .bind .context fun _ => ?_
  split
  . exact .pure _
  -- a site being resolved already is a loop; otherwise its context is resolved first
  split
  case' isTrue => refine .bind (.throw _) fun _ => ?_
  all_goals
    refine .bind (.resolving _ (ih.constraintOf _ _)) fun _ => ?_
    split
    . exact .pure _
    split
    . exact .pure _
    refine .bind (.liftEval _) fun _ => .bind (.liftExcept _) fun _ =>
      .bind (.keepLimited env _ _ fun _ => .pure _) fun _ => ?_
    split
    . exact .bind (ih.mergeCalculated _ _ _) fun _ => .pure _
    . exact .pure _

theorem constraintOf_succ (varied : List Nat) (nonEmpty : Bool) :
    Agrees (env.constraintOf (fuel + 1) varied nonEmpty)
      (env.constraintOf (fuel + 1) varied nonEmpty) := by
  simp only [Env.constraintOf]
  refine .bind .context fun _ => .bind (.forIn_list (fun _ _ => ?_) _ _) fun _ => ?_
  . -- members of the hierarchies the operands vary are skipped
    split
    . exact .pure _
    split
    . -- a measure is judged by its formula's text alone
      split
      . exact .pure _
      split
      . exact .pure _
      split
      . split
        . exact .pure _
        . exact .pure _
      . exact .pure _
    split
    . -- a calculated member is walked through the set its aggregate formula names
      refine .bind (.liftEval _) fun _ => ?_
      split
      . exact .pure _
      refine .bind (.within _ (ih.evalArg _)) fun _ => ?_
      split
      . exact .pure _
      split
      . exact .pure _
      split
      . exact .pure _
      split
      . exact .pure _
      . exact .pure _
    . split
      . exact .pure _
      . exact .pure _
  . split
    . exact .pure _
    . exact .pure _

theorem mergeCalculated_succ (sources : List ArgSource) (nonEmpty : Bool) (limiter : Limiter) :
    Agrees (env.mergeCalculated (fuel + 1) sources nonEmpty limiter)
      (env.mergeCalculated (fuel + 1) sources nonEmpty limiter) := by
  simp only [Env.mergeCalculated]
  -- the operands' members, read from the cube
  refine .bind (.forIn_list (fun _ _ => ?_) _ _) fun _ => ?_
  . split
    . exact .bind (.liftExcept _) fun _ => .pure _
    . exact .bind (.pure _) fun _ => .pure _
  refine .bind (.liftExcept _) fun _ => ?_
  -- in keep-empty mode the room for every combination is checked first
  split
  case' isTrue => refine .bind (.liftExcept _) fun _ => ?_
  -- the combinations with a calculated member, checked for emptiness in non-empty mode
  all_goals
    refine .bind (.forIn_stream (fun _ _ => ?_) _ _) fun _ => .pure _
    split
    . exact .pure _
    refine .bind (.liftEval _) fun _ => ?_
    split
    . refine .bind (.within _ ih.isEmptyCell) fun _ => ?_
      split
      . exact .pure _
      . exact .bind (.liftExcept _) fun _ => .pure _
    . exact .bind (.liftExcept _) fun _ => .pure _

theorem succ : AgreesAt env (fuel + 1) :=
  ⟨ih.cellValue_succ, ih.isEmptyCell_succ, ih.eval_succ, ih.collect_succ, ih.collectPairs_succ,
    ih.evalArg_succ, ih.evalSet_succ, ih.dispatch_succ, ih.attempt_succ, ih.constraintOf_succ,
    ih.mergeCalculated_succ⟩

end AgreesAt

theorem agreesAt (env : Env) : ∀ fuel, AgreesAt env fuel
  | 0 => by
    refine ⟨?_, ?_, fun _ => ?_, fun _ _ => ?_, fun _ _ _ => ?_, fun _ => ?_, fun _ _ => ?_,
      fun _ _ => ?_, fun _ _ => ?_, fun _ _ => ?_, fun _ _ _ => ?_⟩
    all_goals simp only [Env.cellValue, Env.isEmptyCell, Env.eval, Env.collect,
      Env.collectPairs, Env.evalArg, Env.evalSet, Env.dispatch, Env.attempt, Env.constraintOf,
      Env.mergeCalculated]
    all_goals exact Agrees.throw _
  | fuel + 1 => (agreesAt env fuel).succ

theorem agrees_queryCells (env : Env) (q : PreparedQuery) (hasData : Bool) :
    Agrees (env.queryCells q hasData) (env.queryCells q hasData) := by
  have h := agreesAt env evalFuel
  simp only [Env.queryCells, Env.setValue, Env.cell]
  -- the axes' tuples, then the cells at their combinations
  refine .bind (.forIn_list (fun _ _ => .bind (.within _ (h.evalArg _)) fun _ => .pure _) _ _)
    fun _ => .bind (.forIn_list (fun _ _ => ?_) _ _) fun _ => .pure _
  split
  . exact .pure _
  refine .bind (.within _ (.tryCatch (.bind h.cellValue fun _ => .pure _) fun _ => ?_)) fun _ => .pure _
  split
  . exact .pure _
  . exact .throw _

theorem runOn_run {α : Type} (m : EvalOn α) (ev : Evaluator) (c : Counters) :
    (m.runOn ev).run.run c = ((m.run.run (ev, c)).1, (m.run.run (ev, c)).2.2) := rfl

theorem placeSlicer_run {env : Env} {ev : Evaluator} (hwf : ev.WF) (s : SetArg) (c : Counters) :
    ∃ ev', ev'.WF ∧
      (env.placeSlicer s).run.run (ev, c) =
        (((env.applySlicer ev.ctx s).run.run c).1.map Option.isSome, ev',
          ((env.applySlicer ev.ctx s).run.run c).2) ∧
      ∀ r, ((env.applySlicer ev.ctx s).run.run c).1 = .ok r → ev'.ctx = r.getD ev.ctx := by
  obtain ⟨ev₁, h₁, hr₁⟩ := ((agreesAt env evalFuel).evalArg s) ev c hwf
  simp only [Env.placeSlicer, Env.applySlicer, Env.setValue]
  rw [run_bind, h₁, run_bind]
  rcases ((Env.evalArg env evalFuel s : EvalAt TupleSet).run ev.ctx).run.run c with ⟨_ | set, c₁⟩
  . exact ⟨ev₁, hr₁.wf, rfl, fun _ h => nomatch h⟩
  . dsimp only
    -- no tuple places nothing, one tuple is placed, several are rolled up by a calculated member
    rcases set.toList with _ | ⟨t, _ | ⟨u, rest⟩⟩
    . exact ⟨ev₁, hr₁.wf, rfl, fun r h => by cases h; exact hr₁.ctx⟩
    . refine ⟨(ev₁.setContextTuple t).setSlicer [t],
        (Evaluator.keeps_setSlicer (Evaluator.keeps_setContextTuple hr₁.wf t).wf _).wf, rfl,
        fun r h => ?_⟩
      cases h
      simp [Evaluator.setSlicer, Evaluator.setContextTuple_ctx, hr₁.ctx]
    . cases t with
      | nil => exact ⟨ev₁, hr₁.wf, rfl, fun r h => by cases h; exact hr₁.ctx⟩
      | cons first _ =>
        refine ⟨(ev₁.setContext _).setSlicer _,
          (Evaluator.keeps_setSlicer (Evaluator.keeps_setContext hr₁.wf _).wf _).wf, rfl,
          fun r h => ?_⟩
        cases h
        simp [Evaluator.setSlicer, Evaluator.setContext_ctx, hr₁.ctx]

theorem runQuery_eq_queryAt {env : Env}
    (hcube : ∀ i (h : Hierarchy), env.cube.hierarchies[i]? = some h → h.defaultMember.hierarchy = i)
    (q : PreparedQuery) : env.runQuery q = env.queryAt q := by
  have hwf := Evaluator.new_wf hcube 0
  apply ExceptT.ext
  apply StateT.ext
  intro c
  show ((env.queryOn q).runOn (Evaluator.new env.cube 0)).run.run c = (env.queryAt q).run.run c
  rw [runOn_run]
  simp only [Env.queryOn, Env.queryAt]
  cases q.slicer with
  | none =>
    obtain ⟨ev', h', -⟩ := agrees_queryCells env q true _ c hwf
    simp only [pure_bind]
    rw [h']
    rfl
  | some s =>
    obtain ⟨ev₁, hwf₁, h₁, hctx₁⟩ := placeSlicer_run hwf s c
    simp only [pure_bind]
    rw [run_bind, h₁, run_bind]
    have hbase : (Evaluator.new env.cube 0).ctx = Context.initial env.cube := rfl
    rw [hbase] at hctx₁ ⊢
    rcases hr : (env.applySlicer (Context.initial env.cube) s).run.run c with ⟨_ | r, c₁⟩
    . rfl
    . -- the cells are evaluated where the slicer left the evaluator
      have hctx := hctx₁ r (by rw [hr])
      cases r with
      | none =>
        obtain ⟨ev', h', -⟩ := agrees_queryCells env q false ev₁ c₁ hwf₁
        simp only [Except.map, Option.isSome_none]
        rw [h', hctx]
        rfl
      | some ctx =>
        obtain ⟨ev', h', -⟩ := agrees_queryCells env q true ev₁ c₁ hwf₁
        simp only [Except.map, Option.isSome_some]
        rw [h', hctx]
        rfl

/-- On `ev`, `m` computes what `r` computes at `ev`'s context, and hands the evaluator back with
that context and the savepoints outstanding then, whether it succeeds or fails. -/
def RunsAt (ev : Evaluator) (c : Counters) (m : EvalOn α) (r : EvalAt α) : Prop :=
  (m.run.run (ev, c)).1 = ((r.run ev.ctx).run.run c).1 ∧
    (m.run.run (ev, c)).2.1.ctx = ev.ctx ∧ (m.run.run (ev, c)).2.1.outstanding = ev.outstanding

theorem Agrees.runsAt {m : EvalOn α} {r : EvalAt α} (h : Agrees m r) {ev : Evaluator}
    (hwf : ev.WF) (c : Counters) : RunsAt ev c m r := by
  obtain ⟨ev', h', hr⟩ := h ev c hwf
  refine ⟨by rw [h'], by rw [h', hr.ctx], ?_⟩
  rw [h', Evaluator.outstanding_eq_saved, Evaluator.outstanding_eq_saved, hr.saved]

/-- Evaluating a node, a set node or a set operand on an evaluator reached by any context calls
computes what evaluation at its context computes, and hands the evaluator back, whichever way
the evaluation ends, with that context (coordinate, non-empty flag, slicer, nesting depth, native
expressions being resolved) and with the savepoints outstanding then; and a query run on a fresh
evaluator computes every cell at the context its axis tuples give. -/
theorem evaluation_restores_context {env : Env} {id : Nat} {calls : List Call} {ev : Evaluator}
    (hcube : ∀ i (h : Hierarchy), env.cube.hierarchies[i]? = some h → h.defaultMember.hierarchy = i)
    (hrun : (Evaluator.new env.cube id).run calls = .ok ev) (c : Counters) :
    (∀ fuel node, RunsAt ev c (env.eval fuel node) (env.eval fuel node)) ∧
    (∀ fuel node style, RunsAt ev c (env.evalSet fuel node style) (env.evalSet fuel node style)) ∧
    (∀ fuel arg, RunsAt ev c (env.evalArg fuel arg) (env.evalArg fuel arg)) ∧
    ∀ q, env.runQuery q = env.queryAt q := by
  have hwf : ev.WF := (Evaluator.run_wf (Evaluator.new_wf hcube id) hrun).1
  exact ⟨fun fuel node => ((agreesAt env fuel).eval node).runsAt hwf c,
    fun fuel node style => ((agreesAt env fuel).evalSet node style).runsAt hwf c,
    fun fuel arg => ((agreesAt env fuel).evalArg arg).runsAt hwf c, runQuery_eq_queryAt hcube⟩

theorem evaluation_restores_context_measures :
    let sales := Member.measure 0 "Sales" .sum 0
    let units := Member.measure 0 "Units" .sum 1
    let cube : Cube := ⟨[.mk 0 "Measures" ["MeasuresLevel"] sales true false], [sales, units],
      [[[sales, units]]], [], [], true⟩
    let env : Env := ⟨cube, FunctionTable.builtins, {}, false, false⟩
    (∀ i (h : Hierarchy), env.cube.hierarchies[i]? = some h → h.defaultMember.hierarchy = i) ∧
    ∃ ev, (Evaluator.new env.cube 0).run [.mark, .setContext units, .setNonEmpty true] = .ok ev ∧
      (∀ fuel node, RunsAt ev {} (env.eval fuel node) (env.eval fuel node)) ∧
      (∀ fuel node style, RunsAt ev {} (env.evalSet fuel node style) (env.evalSet fuel node style)) ∧
      (∀ fuel arg, RunsAt ev {} (env.evalArg fuel arg) (env.evalArg fuel arg)) ∧
      ∀ q, env.runQuery q = env.queryAt q := by
  intro sales units cube env
  have hcube : ∀ i (h : Hierarchy), env.cube.hierarchies[i]? = some h →
      h.defaultMember.hierarchy = i := by
    intro i h hh
    cases i with
    | zero =>
      simp only [env, cube, List.getElem?_cons_zero, Option.some.injEq] at hh
      subst hh
      rfl
    | succ i => simp [env, cube] at hh
  exact ⟨hcube, _, rfl,
    @evaluation_restores_context env 0 [.mark, .setContext units, .setNonEmpty true] _ hcube rfl {}⟩

end Evaluator

end EvalOn

end OlapCalc
