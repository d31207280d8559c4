import OlapCalc.Proofs.Dependency
import OlapCalc.Proofs.CompileTyping

/-!
Non-empty mode and scalars.

The non-empty flag asks set operators to drop empty tuples, and only a cross join reads it. A
scalar reaches a set only through the aggregates and `Count`, and each of them evaluates its
set, and the values over it, with the flag switched off. So a typed node that is not a set
computes the same, value or error and counts, whatever the flag says.

`Context.SameButFlag` relates two contexts that differ at most in the flag. Every overlay and
every nesting keeps it, and switching the flag off makes the two contexts one, after which
anything at all computes the same. The calculated members that the current cell evaluates are
compiled as values over a typed table, so they are typed scalars too.
-/

namespace OlapCalc

namespace Context

/-- The context with empty tuples kept. -/
def keepingEmpty (ctx : Context) : Context := { ctx with nonEmpty := false }

/-- Two contexts that differ at most in the non-empty flag. -/
def SameButFlag (ctx₁ ctx₂ : Context) : Prop := ctx₁.keepingEmpty = ctx₂.keepingEmpty

theorem keepingEmpty_setMember (ctx : Context) (m : Member) :
    (ctx.setMember m).keepingEmpty = ctx.keepingEmpty.setMember m := by
  unfold setMember keepingEmpty
  split_ifs <;> rfl

theorem keepingEmpty_setTuple (ctx : Context) (t : Tuple) :
    (ctx.setTuple t).keepingEmpty = ctx.keepingEmpty.setTuple t := by
  induction t generalizing ctx with
  | nil => rfl
  | cons m t ih =>
    show ((ctx.setMember m).setTuple t).keepingEmpty = (ctx.keepingEmpty.setMember m).setTuple t
    rw [ih, keepingEmpty_setMember]

theorem keepingEmpty_widenSlicer (ctx : Context) (hs : List Nat) :
    (ctx.widenSlicer hs).keepingEmpty = ctx.keepingEmpty.widenSlicer hs := by
  unfold widenSlicer keepingEmpty
  split_ifs <;> rfl

theorem sameButFlag_iff {ctx₁ ctx₂ : Context} : SameButFlag ctx₁ ctx₂ ↔
    ctx₁.coordinate = ctx₂.coordinate ∧ ctx₁.slicer = ctx₂.slicer ∧ ctx₁.depth = ctx₂.depth ∧
      ctx₁.resolving = ctx₂.resolving := by
  cases ctx₁
  cases ctx₂
  simp [SameButFlag, keepingEmpty]

namespace SameButFlag

variable {ctx₁ ctx₂ : Context}

theorem apply (h : SameButFlag ctx₁ ctx₂) : ∀ o : Overlay, SameButFlag (o.apply ctx₁) (o.apply ctx₂)
  | .tuple t => by
    unfold SameButFlag
    rw [Overlay.apply, Overlay.apply, keepingEmpty_setTuple, keepingEmpty_setTuple, h]
  | .nonEmpty _ => h
  | .widen hs => by
    unfold SameButFlag
    rw [Overlay.apply, Overlay.apply, keepingEmpty_widenSlicer, keepingEmpty_widenSlicer, h]

theorem reset (h : SameButFlag ctx₁ ctx₂) :
    (Overlay.nonEmpty false).apply ctx₁ = (Overlay.nonEmpty false).apply ctx₂ := h

theorem descend (h : SameButFlag ctx₁ ctx₂) :
    SameButFlag { ctx₁ with depth := ctx₁.depth + 1 } { ctx₂ with depth := ctx₂.depth + 1 } := by
  obtain ⟨hc, hs, hd, hr⟩ := sameButFlag_iff.mp h
  exact sameButFlag_iff.mpr ⟨hc, hs, by rw [hd], hr⟩

end SameButFlag

end Context

namespace EvalAt.Indifferent

variable {α β : Type} {R : Context → Context → Prop}

theorem within_of_eq (o : Overlay) (ho : ∀ ctx₁ ctx₂, R ctx₁ ctx₂ → o.apply ctx₁ = o.apply ctx₂)
    (m : EvalAt α) : Indifferent R (EvalMonad.within o m) := by
  intro ctx₁ ctx₂ hR
  show m.run (o.apply ctx₁) = m.run (o.apply ctx₂)
  rw [ho ctx₁ ctx₂ hR]

theorem liftEval_bind {x : Eval α} {f : α → EvalAt β}
    (hf : ∀ a c c', x.run.run c = (.ok a, c') → Indifferent R (f a)) :
    Indifferent R (EvalMonad.liftEval x >>= f) := by
  intro ctx₁ ctx₂ hR
  show (x >>= fun a => (f a).run ctx₁) = (x >>= fun a => (f a).run ctx₂)
  apply ExceptT.ext
  funext c
  simp only [ExceptT.run_bind]
  change StateT.run (_ >>= _) c = StateT.run (_ >>= _) c
  rw [StateT.run_bind, StateT.run_bind]
  rcases hx : x.run.run c with ⟨r, c'⟩
  cases r with
  | error e => rfl
  | ok a =>
    show ((f a).run ctx₁).run.run c' = ((f a).run ctx₂).run.run c'
    rw [hf a c c' hx ctx₁ ctx₂ hR]

theorem read_flag {f : Context → EvalAt α} (hf : ∀ ctx, f ctx.keepingEmpty = f ctx)
    (hind : ∀ ctx, Indifferent Context.SameButFlag (f ctx)) :
    Indifferent Context.SameButFlag (EvalMonad.context >>= f) :=
  read (fun ctx₁ ctx₂ hR => by rw [← hf ctx₁, ← hf ctx₂, hR]) fun ctx₁ _ _ => hind ctx₁

theorem within_flag (o : Overlay) {m : EvalAt α} (h : Indifferent Context.SameButFlag m) :
    Indifferent Context.SameButFlag (EvalMonad.within o m) :=
  within o (fun _ _ hR => hR.apply o) h

theorem within_reset (m : EvalAt α) :
    Indifferent Context.SameButFlag (EvalMonad.within (.nonEmpty false) m) :=
  within_of_eq _ (fun _ _ hR => hR.reset) m

theorem deeper_flag {m : EvalAt α} (h : Indifferent Context.SameButFlag m) :
    Indifferent Context.SameButFlag (EvalMonad.deeper m) :=
  withReader (fun _ _ hR => hR.descend) h

end EvalAt.Indifferent

theorem Shape.category_ne_set_of_isScalar {s : Shape} (h : s.isScalar) : s.category ≠ .set := by
  intro hs
  rw [Shape.isScalar, hs] at h
  cases h

theorem Shape.category_ne_set_of_isMemberLike {s : Shape} (h : s.isMemberLike) :
    s.category ≠ .set := by
  cases s <;> simp_all [Shape.isMemberLike, Shape.category]

namespace Env

open EvalAt

variable {env : Env}

theorem formulaNode_typed (ht : env.functions.Typed) {m : Member} {node : Node} {c c' : Counters}
    (h : (env.formulaNode m).run.run c = (.ok node, c')) : node.Typed ∧ node.shape.isScalar := by
  unfold formulaNode at h
  split at h
  . next e _ _ =>
    cases hc : env.functions.compile e .value with
    | error err =>
      rw [hc] at h
      cases h
    | ok n =>
      rw [hc] at h
      cases h
      exact Compiler.scalar_operand rfl (FunctionTable.compile_typed ht hc)
  . cases h

theorem collect_flag (env : Env) :
    ∀ fuel set value, Indifferent Context.SameButFlag (env.collect fuel set value)
  | 0, _, _ => by
    simp only [Env.collect]
    exact Indifferent.throw _
  | fuel + 1, _, _ => by
    simp only [Env.collect]
    exact Indifferent.within_reset _

theorem collectPairs_flag (env : Env) :
    ∀ fuel set y x, Indifferent Context.SameButFlag (env.collectPairs fuel set y x)
  | 0, _, _, _ => by
    simp only [Env.collectPairs]
    exact Indifferent.throw _
  | fuel + 1, _, _, _ => by
    simp only [Env.collectPairs]
    exact Indifferent.within_reset _

/-- At nesting bound `fuel`, a typed node that is not a set, and the current cell, compute the
same from two contexts that differ at most in the non-empty flag. -/
structure FlagBlindAt (env : Env) (fuel : Nat) : Prop where
  eval : ∀ node : Node, node.Typed → node.shape.category ≠ .set →
    Indifferent Context.SameButFlag (env.eval fuel node)
  cellValue : Indifferent Context.SameButFlag (env.cellValue fuel)

namespace FlagBlindAt

variable {fuel : Nat}

theorem scalar (ih : FlagBlindAt env fuel) {n : Node} (h₁ : n.Typed) (h₂ : n.shape.isScalar) :
    Indifferent Context.SameButFlag (env.eval fuel n) :=
  ih.eval n h₁ (Shape.category_ne_set_of_isScalar h₂)

theorem member (ih : FlagBlindAt env fuel) {n : Node} (h₁ : n.Typed) (h₂ : n.shape = .member) :
    Indifferent Context.SameButFlag (env.eval fuel n) :=
  ih.eval n h₁ (by simp [h₂, Shape.category])

theorem memberLike (ih : FlagBlindAt env fuel) {n : Node} (h₁ : n.Typed)
    (h₂ : n.shape.isMemberLike) : Indifferent Context.SameButFlag (env.eval fuel n) :=
  ih.eval n h₁ (Shape.category_ne_set_of_isMemberLike h₂)

theorem fits (ih : FlagBlindAt env fuel) {n : Node} {s : Shape} (h₁ : n.Typed)
    (h₂ : n.shape.Fits s) (h₃ : s.isScalar) : Indifferent Context.SameButFlag (env.eval fuel n) :=
  ih.scalar h₁ (h₂.isScalar h₃)

theorem cellValue_succ (ht : env.functions.Typed) (ih : FlagBlindAt env fuel) :
    Indifferent Context.SameButFlag (env.cellValue (fuel + 1)) := by
  simp only [Env.cellValue]
  refine Indifferent.bind (Indifferent.liftEval _) fun _ =>
    Indifferent.read_flag (fun _ => rfl) fun ctx => ?_
  split
  . exact Indifferent.liftEval _
  . split
    . exact Indifferent.throw _
    . -- the formula of the leading calculated member is a typed scalar
      refine Indifferent.liftEval_bind fun node c c' hnode => ?_
      obtain ⟨htyped, hscalar⟩ := formulaNode_typed ht hnode
      exact Indifferent.deeper_flag (ih.scalar htyped hscalar)

theorem eval_succ (ih : FlagBlindAt env fuel) (node : Node) (htyped : node.Typed)
    (hset : node.shape.category ≠ .set) :
    Indifferent Context.SameButFlag (env.eval (fuel + 1) node) := by
  cases node
  -- set nodes are not asked about
  case levelMembers | children | enumerate | singleton | slicer | crossJoin | filter | topCount
    | head | order | generate => exact absurd rfl hset
  all_goals simp only [Node.Typed] at htyped
  all_goals simp only [Env.eval]
  case const | memberConst => exact .pure _
  -- the nodes that read the context read no flag
  case currentMember => exact .read_flag (fun _ => rfl) fun _ => .pure _
  -- one member operand, converted and wrapped
  case parent n | memberName n | memberToTuple n =>
    exact .bind (ih.member htyped.1 htyped.2) fun _ => .bind (.liftExcept _) fun _ => .pure _
  -- one scalar operand
  case negate n | not n | truncate n | toText n =>
    exact .bind (ih.scalar htyped.1 htyped.2) fun _ => .bind (.liftExcept _) fun _ => .pure _
  case isEmpty n | format n _ => exact .bind (ih.scalar htyped.1 htyped.2) fun _ => .pure _
  case coerce n _ =>
    refine .bind (ih.scalar htyped.1.1 htyped.1.2) fun _ => ?_
    -- a conversion to one of four categories, or the value as it is
    split
    . exact .bind (.liftExcept _) fun _ => .pure _
    . exact .bind (.liftExcept _) fun _ => .pure _
    . exact .bind (.liftExcept _) fun _ => .pure _
    . exact .bind (.liftExcept _) fun _ => .pure _
    . exact .pure _
  case arith _ l r =>
    obtain ⟨⟨hl, hl'⟩, hr, hr'⟩ := htyped
    refine .bind (ih.scalar hl hl') fun _ => .bind (.liftExcept _) fun _ => ?_
    split
    . exact .pure _
    . exact .bind (ih.scalar hr hr') fun _ => .bind (.liftExcept _) fun _ =>
        .bind (.liftExcept _) fun _ => .pure _
  case compare _ l r =>
    obtain ⟨⟨hl, hl'⟩, hr, hr'⟩ := htyped
    exact .bind (ih.scalar hl hl') fun _ => .bind (ih.scalar hr hr') fun _ => .liftExcept _
  case logical _ l r =>
    obtain ⟨⟨hl, hl'⟩, hr, hr'⟩ := htyped
    refine .bind (ih.scalar hl hl') fun _ => .bind (.liftExcept _) fun _ => ?_
    split
    . exact .pure _
    . exact .bind (ih.scalar hr hr') fun _ => .bind (.liftExcept _) fun _ => .pure _
  case formatWith v p =>
    obtain ⟨⟨hv, hv'⟩, hp, hp'⟩ := htyped
    exact .bind (ih.scalar hv hv') fun _ => .bind (ih.scalar hp hp') fun _ =>
      .bind (.liftExcept _) fun _ => .pure _
  case iif c t e s =>
    obtain ⟨⟨hc, hc'⟩, ⟨ht, ht'⟩, ⟨he, he'⟩, hs⟩ := htyped
    refine .bind (ih.scalar hc hc') fun _ => .bind (.liftExcept _) fun _ => ?_
    split
    . exact ih.fits ht ht' hs
    . exact ih.fits he he' hs
  case memberValue n =>
    -- the cell is read at the tuple the operand gives
    exact .bind (ih.memberLike htyped.1 htyped.2) fun _ => .bind (.liftExcept _) fun _ =>
      .within_flag _ ih.cellValue
  -- operands in a loop are taken one at a time
  case tuple ns =>
    have hall := Node.membersTyped_iff.mp htyped
    refine .bind (.forIn_list ns (fun n hn _ => ?_) _) fun _ => .pure _
    refine .bind (ih.member (hall n hn).1 (hall n hn).2) fun _ => .bind (.liftExcept _) fun _ => ?_
    split
    . exact .bind (.throw _) fun _ => .pure _
    . exact .pure _
  case coalesce ns s =>
    have hall := Node.fitsTyped_iff.mp htyped.1
    refine .bind (.forIn_list ns (fun n hn _ =>
      .bind (ih.fits (hall n hn).1 (hall n hn).2 htyped.2) fun _ => ?_) _) fun _ => ?_
    . split
      . exact .pure _
      . exact .pure _
    . split
      . exact .pure _
      . exact .pure _
  -- the aggregates collect with the flag switched off
  case sum =>
    refine .bind (collect_flag env _ _ _) fun _ => ?_
    split
    . exact .pure _
    split
    . exact .pure _
    . exact .pure _
  case avg | dispersion => exact .bind (collect_flag env _ _ _) fun _ => .pure _
  case extremum =>
    refine .bind (collect_flag env _ _ _) fun _ => ?_
    split
    . exact .pure _
    . exact .pure _
  case aggregate =>
    refine .read_flag (fun _ => rfl) fun _ => .bind (collect_flag env _ _ _) fun _ => ?_
    split
    . exact .pure _
    . exact .pure _
  case percentile _ _ p =>
    -- the share is read first, from the percent operand when there is one
    cases p
    case' none => refine .bind (.pure _) fun _ => ?_
    case' some p =>
      simp only [Node.OptTyped] at htyped
      refine .bind (ih.scalar htyped.2.2.1 htyped.2.2.2) fun _ => .bind (.liftExcept _) fun _ =>
        .bind (.pure _) fun _ => ?_
    all_goals
      split
      . exact .pure _
      . exact .bind (collect_flag env _ _ _) fun _ => .pure _
  case regression _ point _ _ _ =>
    -- the forecast point is read first, when there is one, and the fit is made after it
    cases point
    case' some p =>
      simp only [Node.OptTyped] at htyped
      refine .bind (ih.scalar htyped.1.1 htyped.1.2) fun _ => .bind (.liftExcept _) fun _ => ?_
      split
    all_goals
      refine .bind (.pure _) fun _ => ?_
      split
      . exact .pure _
      refine .bind (collectPairs_flag env _ _ _ _) fun _ => ?_
      split
      . exact .pure _
      . exact .pure _
  case pairwise =>
    refine .bind (collectPairs_flag env _ _ _ _) fun _ => ?_
    split
    . exact .pure _
    . exact .pure _
  case count =>
    split
    . exact .bind (.within_reset _) fun _ => .pure _
    . exact .within_reset _

theorem succ (ht : env.functions.Typed) (ih : FlagBlindAt env fuel) :
    FlagBlindAt env (fuel + 1) :=
  ⟨ih.eval_succ, ih.cellValue_succ ht⟩

end FlagBlindAt

theorem flagBlindAt (ht : env.functions.Typed) : ∀ fuel, FlagBlindAt env fuel
  | 0 => by
    refine ⟨fun _ _ _ => ?_, ?_⟩
    all_goals simp only [Env.eval, Env.cellValue]
    all_goals exact Indifferent.throw _
  | fuel + 1 => (flagBlindAt ht fuel).succ ht

/-- Non-empty mode never changes a scalar. Over a typed function table, a node compiled to a
scalar category gives the same value or error, with the same counts, on an evaluator in
non-empty mode as on the same evaluator out of it, and hands the evaluator back with the flag as
it found it. -/
theorem scalar_ignores_nonEmpty (ht : env.functions.Typed) {e : Exp} {c : Category}
    (hc : c.isScalar) {n : Node} (hn : env.functions.compile e c = .ok n) {ev : Evaluator}
    (hwf : ev.WF) (fuel : Nat) :
    (env.eval fuel n : EvalOn Value).runOn (ev.setNonEmpty true) =
        (env.eval fuel n : EvalOn Value).runOn (ev.setNonEmpty false) ∧
      ∀ b counters,
        ((env.eval fuel n : EvalOn Value).run.run (ev.setNonEmpty b, counters)).2.1.ctx.nonEmpty =
          b := by
  obtain ⟨htyped, hscalar⟩ := Compiler.scalar_operand hc (FunctionTable.compile_typed ht hn)
  have hagree := (EvalOn.agreesAt env fuel).eval n
  -- the two evaluators' contexts differ in the flag alone
  have hsame : Context.SameButFlag (ev.setNonEmpty true).ctx (ev.setNonEmpty false).ctx := by
    rw [Evaluator.setNonEmpty_ctx, Evaluator.setNonEmpty_ctx]
    rfl
  constructor
  . exact hagree.runOn_eq (Evaluator.keeps_setNonEmpty hwf true).wf
      (Evaluator.keeps_setNonEmpty hwf false).wf
      ((flagBlindAt ht fuel).scalar htyped hscalar _ _ hsame)
  . intro b counters
    have hruns := hagree.runsAt (Evaluator.keeps_setNonEmpty hwf b).wf counters
    rw [hruns.2.1, Evaluator.setNonEmpty_ctx]

theorem scalar_ignores_nonEmpty_count :
    let env : Env := ⟨⟨[], [], [], [], [], true⟩, FunctionTable.builtins, {}, false, false⟩
    let e : Exp := .call "Count" .function [.call "\x7b\x7d" .braces []]
    ∃ n, env.functions.compile e .integer = .ok n ∧
      (env.eval evalFuel n : EvalOn Value).runOn ((Evaluator.new env.cube 0).setNonEmpty true) =
        (env.eval evalFuel n : EvalOn Value).runOn ((Evaluator.new env.cube 0).setNonEmpty false) ∧
      ∀ b counters, ((env.eval evalFuel n : EvalOn Value).run.run
        ((Evaluator.new env.cube 0).setNonEmpty b, counters)).2.1.ctx.nonEmpty = b := by
  intro env e
  have hwf : (Evaluator.new env.cube 0).WF := by
    apply Evaluator.new_wf
    intro i h hh
    simp [env] at hh
  have hok : (env.functions.compile e .integer).toBool = true := by decide +kernel
  cases hn : env.functions.compile e .integer with
  | error err =>
    rw [hn] at hok
    cases hok
  | ok n => exact ⟨n, rfl, scalar_ignores_nonEmpty FunctionTable.builtins_typed rfl hn hwf evalFuel⟩

end Env

end OlapCalc
