import OlapCalc.Proofs.Traversal
import OlapCalc.Proofs.TupleArity
import OlapCalc.Proofs.CompileErrors

/-!
The negotiated representation never changes a set.

A set node hands its tuples over as a one-pass sequence, a shared list or a list the consumer
owns, whichever its consumer negotiated when compiling. Every node computes its tuples the same
way whatever the representation, and only wraps them differently at the end; a cross join that
keeps empty tuples is the one node that, asked for a list, walks its product with a cancellation
check per tuple, where as a sequence it hands the product over undescribed. So two
representations of one evaluation give the same tuples, unless the walk was interrupted.
-/

namespace OlapCalc

/-- An error that stops an evaluation from outside it: the query was cancelled, or its deadline
passed. -/
def OlapError.Interrupts (e : OlapError) : Prop := e = .cancelled ∨ e = .timeout

/-- Two outcomes of evaluating one set that hand over the same tuples: both succeed with one
sequence of tuples, or both fail with one error, or one of them was interrupted. -/
structure SameTuples (r₁ r₂ : Except OlapError TupleSet) : Prop where
  ok_ok : ∀ a b, r₁ = .ok a → r₂ = .ok b → a.toList = b.toList
  error_left : ∀ e, r₁ = .error e → r₂ = .error e ∨ e.Interrupts
  error_right : ∀ e, r₂ = .error e → r₁ = .error e ∨ e.Interrupts

namespace SameTuples

theorem refl (r : Except OlapError TupleSet) : SameTuples r r := by
  refine ⟨fun a b h₁ h₂ => ?_, fun _ h => .inl h, fun _ h => .inl h⟩
  rw [h₁] at h₂
  cases h₂
  rfl

theorem symm {r₁ r₂ : Except OlapError TupleSet} (h : SameTuples r₁ r₂) : SameTuples r₂ r₁ :=
  ⟨fun a b h₁ h₂ => (h.ok_ok b a h₂ h₁).symm, h.error_right, h.error_left⟩

theorem ok {a b : TupleSet} (h : a.toList = b.toList) : SameTuples (.ok a) (.ok b) := by
  refine ⟨fun _ _ h₁ h₂ => ?_, fun _ h => ?_, fun _ h => ?_⟩
  . cases h₁
    cases h₂
    exact h
  all_goals cases h

theorem interrupted {a : TupleSet} {e : OlapError} (he : e.Interrupts) :
    SameTuples (.ok a) (.error e) := by
  refine ⟨fun _ _ _ h => ?_, fun _ h => ?_, fun _ h => ?_⟩
  . cases h
  . cases h
  . cases h
    exact .inr he

theorem map_left {r₁ r₂ : Except OlapError TupleSet} {f : TupleSet → TupleSet}
    (hf : ∀ a, (f a).toList = a.toList) (h : SameTuples r₁ r₂) : SameTuples (r₁.map f) r₂ := by
  cases r₁ with
  | error e => exact h
  | ok a =>
    refine ⟨fun _ b h₁ h₂ => ?_, fun _ h₁ => ?_, fun e h₂ => ?_⟩
    . cases h₁
      rw [hf]
      exact h.ok_ok a b rfl h₂
    . cases h₁
    . rcases h.error_right e h₂ with h₁ | he
      . cases h₁
      . exact .inr he

end SameTuples

@[simp] theorem TupleSet.toList_iterable (s : TupleStream) : (TupleSet.iterable s).toList = s.collect :=
  rfl

namespace EvalOn

variable {α : Type}

/-- Two evaluations of one set that hand over the same tuples from every state of the
evaluator. -/
def SameTuples (x y : EvalOn TupleSet) : Prop := ∀ s, OlapCalc.SameTuples (x.run.run s).1 (y.run.run s).1

namespace SameTuples

theorem refl (x : EvalOn TupleSet) : SameTuples x x := fun _ => .refl _

theorem symm {x y : EvalOn TupleSet} (h : SameTuples x y) : SameTuples y x := fun s => (h s).symm

theorem pure {a b : TupleSet} (h : a.toList = b.toList) : SameTuples (Pure.pure a) (Pure.pure b) :=
  fun _ => .ok h

theorem bind_same {m : EvalOn α} {f g : α → EvalOn TupleSet} (h : ∀ a, SameTuples (f a) (g a)) :
    SameTuples (m >>= f) (m >>= g) := by
  intro s
  rw [run_bind, run_bind]
  rcases m.run.run s with ⟨e | a, s'⟩
  . exact .refl _
  . exact h a s'

theorem map_left {m y : EvalOn TupleSet} {f : TupleSet → TupleSet}
    (hf : ∀ a, (f a).toList = a.toList) (h : SameTuples m y) :
    SameTuples (m >>= fun a => Pure.pure (f a)) y := by
  intro s
  rw [run_bind]
  have hs := (h s).map_left hf
  revert hs
  rcases m.run.run s with ⟨e | a, s'⟩
  . exact id
  . exact id

theorem within_pure (o : Overlay) (m : EvalOn α) {f g : α → TupleSet}
    (h : ∀ a, (f a).toList = (g a).toList) :
    SameTuples (EvalMonad.within o (m >>= fun a => Pure.pure (f a)))
      (EvalMonad.within o (m >>= fun a => Pure.pure (g a))) := by
  rintro ⟨ev, c⟩
  show OlapCalc.SameTuples ((EvalOn.within o _).run.run (ev, c)).1 ((EvalOn.within o _).run.run (ev, c)).1
  simp only [EvalOn.within, ExceptT.run_mk, run_bind]
  dsimp only [StateT.run]
  rcases ExceptT.run m (o.enter ev.mark.1, c) with ⟨e | a, ev', c'⟩
  . exact .refl _
  . have hpure : ∀ b : TupleSet,
        ExceptT.run (Pure.pure b : EvalOn TupleSet) (ev', c') = (.ok b, ev', c') := fun _ => rfl
    dsimp only
    rw [hpure, hpure]
    dsimp only
    cases ev'.restore ev.mark.2
    . exact .refl _
    . exact .ok (h a)

end SameTuples

theorem liftEval_check_run (env : Env) (ev : Evaluator) (c : Counters) :
    (EvalMonad.liftEval env.check : EvalOn Unit).run.run (ev, c) =
      ((env.check.run.run c).1, ev, (env.check.run.run c).2) := rfl

end EvalOn

namespace Env

theorem check_interrupts (env : Env) : Eval.Raises OlapError.Interrupts env.check :=
  env.check_raises

theorem checked_walk (env : Env) : ∀ (ts : List Tuple) (acc : Array Tuple) (s : Evaluator × Counters),
    (∃ arr s', (forIn ts acc fun t r => do EvalMonad.liftEval env.check; pure (ForInStep.yield (r.push t)) :
      EvalOn (Array Tuple)).run.run s = (.ok arr, s') ∧ arr.toList = acc.toList ++ ts) ∨
    ∃ e s', (forIn ts acc fun t r => do EvalMonad.liftEval env.check; pure (ForInStep.yield (r.push t)) :
      EvalOn (Array Tuple)).run.run s = (.error e, s') ∧ e.Interrupts
  | [], acc, s => .inl ⟨acc, s, rfl, by simp⟩
  | t :: ts, acc, (ev, c) => by
    rw [List.forIn_cons, EvalOn.run_bind, EvalOn.run_bind, EvalOn.liftEval_check_run]
    rcases hc : (env.check.run.run c).1 with e | u
    . exact .inr ⟨e, _, rfl, env.check_interrupts c e hc⟩
    . rcases checked_walk env ts (acc.push t) (ev, (env.check.run.run c).2) with
        ⟨arr, s', h, harr⟩ | ⟨e, s', h, he⟩
      . exact .inl ⟨arr, s', h, by simp [harr]⟩
      . exact .inr ⟨e, s', h, he⟩

end Env

namespace EvalOn.SameTuples

theorem product_walked (env : Env) (lists : List (List Tuple)) (style : ResultStyle) :
    SameTuples (Pure.pure (.iterable (.product lists)))
      (forIn (TupleStream.product lists) (#[] : Array Tuple)
          (fun t r => do EvalMonad.liftEval env.check; Pure.pure (ForInStep.yield (r.push t))) >>=
        fun ts => Pure.pure (TupleSet.deliver ts.toList style)) := by
  rw [TupleStream.forIn_eq_forIn_toList]
  intro s
  rw [run_bind]
  rcases env.checked_walk (TupleStream.product lists).toList #[] s with
    ⟨arr, s', h, harr⟩ | ⟨e, s', h, he⟩ <;> rw [h]
  · refine .ok ?_
    rw [TupleSet.toList_deliver, harr, Array.toList_empty, List.nil_append]
    exact TupleStream.collect_eq_toList (.product lists)
  · exact .interrupted he

theorem throw_bind (e : OlapError) (f g : α → EvalOn TupleSet) :
    SameTuples (throw e >>= f) (throw e >>= g) := by
  intro s
  show OlapCalc.SameTuples (.error e) (.error e)
  exact .refl _

/-- A product handed over lazily or walked into a list, as the representation asks. -/
theorem product_styles (env : Env) (lists : List (List Tuple)) (s₁ s₂ : ResultStyle) :
    SameTuples
      (if (s₁ == .iterable) = true then Pure.pure (.iterable (.product lists))
        else forIn (TupleStream.product lists) (#[] : Array Tuple)
            (fun t r => do EvalMonad.liftEval env.check; Pure.pure (ForInStep.yield (r.push t))) >>=
          fun ts => Pure.pure (TupleSet.deliver ts.toList s₁))
      (if (s₂ == .iterable) = true then Pure.pure (.iterable (.product lists))
        else forIn (TupleStream.product lists) (#[] : Array Tuple)
            (fun t r => do EvalMonad.liftEval env.check; Pure.pure (ForInStep.yield (r.push t))) >>=
          fun ts => Pure.pure (TupleSet.deliver ts.toList s₂)) := by
  split
  . split
    . exact refl _
    . exact product_walked env lists s₂
  . split
    . exact (product_walked env lists s₁).symm
    . exact bind_same fun _ => pure (by simp only [TupleSet.toList_deliver])

/-- A prefix of a stream handed over lazily or collected, as the representation asks. -/
theorem taken_styles (t : TupleStream) (s₁ s₂ : ResultStyle) :
    SameTuples
      (if (s₁ == .iterable) = true then Pure.pure (.iterable t)
        else Pure.pure (TupleSet.deliver t.collect s₁))
      (if (s₂ == .iterable) = true then Pure.pure (.iterable t)
        else Pure.pure (TupleSet.deliver t.collect s₂)) := by
  -- both wrappings list the collected stream
  have h : ∀ s : ResultStyle,
      ((if (s == .iterable) = true then TupleSet.iterable t else TupleSet.deliver t.collect s).toList
        = t.collect) := by
    intro s
    split
    . rfl
    . exact TupleSet.toList_deliver _ _
  rw [← apply_ite Pure.pure, ← apply_ite Pure.pure]
  exact pure ((h s₁).trans (h s₂).symm)

end EvalOn.SameTuples

namespace Env

theorem evalSet_sameTuples (env : Env) : ∀ (fuel : Nat) (node : Node) (s₁ s₂ : ResultStyle),
    EvalOn.SameTuples (env.evalSet fuel node s₁) (env.evalSet fuel node s₂)
  | 0, _, _, _ => by
    simp only [Env.evalSet]
    exact .refl _
  | fuel + 1, node, s₁, s₂ => by
    -- each node runs one program whatever the representation and wraps its tuples only at the
    -- end, so bind_same walks the shared steps and the last one wraps one list two ways
    have deliver : ∀ ts, EvalOn.SameTuples (Pure.pure (TupleSet.deliver ts s₁))
        (Pure.pure (TupleSet.deliver ts s₂)) :=
      fun _ => .pure (by simp only [TupleSet.toList_deliver])
    cases node <;> simp only [Env.evalSet]
    case levelMembers =>
      exact .bind_same fun _ => deliver _
    case children =>
      refine .bind_same fun _ => ?_
      split
      . exact deliver _
      . exact deliver _
      . exact .refl _
    case enumerate =>
      exact .bind_same fun _ => deliver _
    case singleton =>
      refine .bind_same fun _ => ?_
      split
      . exact deliver _
      . exact deliver _
      . exact deliver _
      . exact .refl _
    case slicer =>
      exact .bind_same fun _ => .pure (by simp only [TupleSet.toList_adapt])
    case crossJoin =>
      refine .bind_same fun _ => .bind_same fun _ => ?_
      split
      . exact deliver _
      . refine .bind_same fun _ => ?_
        split
        -- empty tuples kept: a bound on the product, then the product lazily or walked
        . split
          . exact .throw_bind _ _ _
          . exact .product_styles env _ s₁ s₂
        -- empty tuples dropped: one limited walk, wrapped at its end
        . exact .within_pure _ _ fun _ => by simp only [TupleSet.toList_deliver]
    case filter =>
      refine .bind_same fun _ => ?_
      split
      . exact deliver _
      . exact .bind_same fun _ => .bind_same fun _ => deliver _
    case topCount =>
      -- with a site or without, the tuples are delegated or listed alike
      split
      all_goals
        refine .bind_same fun _ => ?_
        split
        . exact deliver _
        . refine .bind_same fun _ => .bind_same fun _ => .bind_same fun _ => ?_
          split
          . exact deliver _
          . exact .bind_same fun _ => deliver _
    case head =>
      -- a count, when there is one, is read before the operand
      split
      . exact .bind_same fun _ => .bind_same fun _ => .bind_same fun _ => .bind_same fun _ =>
          .taken_styles _ s₁ s₂
      . exact .bind_same fun _ => .bind_same fun _ => .taken_styles _ s₁ s₂
    case order =>
      exact .bind_same fun _ => .bind_same fun _ => deliver _
    case generate =>
      exact .bind_same fun _ => .bind_same fun _ => deliver _
    -- every other node is a value, which has to be a set
    all_goals
      refine .bind_same fun _ => ?_
      split
      . exact .pure (by simp only [TupleSet.toList_adapt])
      . exact .refl _
      . exact .refl _

theorem evalArg_sameTuples (env : Env) (fuel : Nat) (node : Node) (negotiated style : ResultStyle) :
    EvalOn.SameTuples (env.evalArg (fuel + 1) (.mk node negotiated)) (env.evalSet fuel node style) := by
  simp only [Env.evalArg]
  exact EvalOn.SameTuples.map_left (fun a => TupleSet.toList_adapt a negotiated)
    (env.evalSet_sameTuples fuel node negotiated style)

/-- The negotiated representation never changes a set. For every set node, every state of the
evaluator and every two representations, evaluating the node in the two gives the same tuples
when both succeed, and otherwise both fail alike or one of them was interrupted (cancelled or
timed out). Converting a set to another representation, listing it, iterating it and wrapping a
fresh list keep its tuples in order, so a set operand hands over its node's tuples in whatever
representation was negotiated for it when compiling. -/
theorem negotiated_style_keeps_tuples (env : Env) :
    (∀ fuel node s₁ s₂, EvalOn.SameTuples (env.evalSet fuel node s₁) (env.evalSet fuel node s₂)) ∧
    (∀ (set : TupleSet) style, (set.adapt style).toList = set.toList) ∧
    (∀ (ts : List Tuple) style, (TupleSet.deliver ts style).toList = ts) ∧
    (∀ {β : Type} (set : TupleSet) (b : β) (f : Tuple → β → EvalOn (ForInStep β)),
      forIn set.stream b f = forIn set.toList b f) ∧
    ∀ fuel node negotiated style,
      EvalOn.SameTuples (env.evalArg (fuel + 1) (.mk node negotiated)) (env.evalSet fuel node style) :=
  ⟨env.evalSet_sameTuples, TupleSet.toList_adapt, TupleSet.toList_deliver,
    fun set b f => by rw [TupleStream.forIn_eq_forIn_toList, TupleSet.toList_stream],
    env.evalArg_sameTuples⟩

end Env

end OlapCalc
