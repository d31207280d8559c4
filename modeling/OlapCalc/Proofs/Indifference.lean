import OlapCalc.Proofs.Traversal
import OlapCalc.Eval.Core

/-!
Evaluations that cannot tell two contexts apart.

`Indifferent R m` says that `m` computes the same, result and counts, from any two contexts
related by `R`. It is built up the way evaluations are: what does not read the context is
indifferent, binding, handlers and loops keep it, a nested evaluation under a changed context
keeps it when the change keeps `R`, and reading the context keeps it when the rest of the
evaluation is the same from both contexts.
-/

namespace OlapCalc

namespace EvalAt

variable {α β γ : Type} {R : Context → Context → Prop}

/-- `m` computes the same from any two contexts related by `R`. -/
def Indifferent (R : Context → Context → Prop) (m : EvalAt α) : Prop :=
  ∀ ctx₁ ctx₂, R ctx₁ ctx₂ → m.run ctx₁ = m.run ctx₂

namespace Indifferent

theorem pure (a : α) : Indifferent R (Pure.pure a) := fun _ _ _ => rfl

theorem throw (e : OlapError) : Indifferent R (α := α) (MonadExcept.throw e) := fun _ _ _ => rfl

theorem liftEval (x : Eval α) : Indifferent R (EvalMonad.liftEval x) := fun _ _ _ => rfl

theorem liftExcept (x : Except OlapError α) : Indifferent R (OlapCalc.liftExcept x) := by
  cases x <;> exact fun _ _ _ => rfl

theorem bind {m : EvalAt α} {f : α → EvalAt β} (hm : Indifferent R m)
    (hf : ∀ a, Indifferent R (f a)) : Indifferent R (m >>= f) := by
  intro ctx₁ ctx₂ hR
  show (m.run ctx₁ >>= fun a => (f a).run ctx₁) = (m.run ctx₂ >>= fun a => (f a).run ctx₂)
  rw [hm ctx₁ ctx₂ hR]
  congr
  funext a
  exact hf a ctx₁ ctx₂ hR

theorem read {f : Context → EvalAt α} (hf : ∀ ctx₁ ctx₂, R ctx₁ ctx₂ → f ctx₁ = f ctx₂)
    (hind : ∀ ctx₁ ctx₂, R ctx₁ ctx₂ → Indifferent R (f ctx₁)) :
    Indifferent R (EvalMonad.context >>= f) := by
  intro ctx₁ ctx₂ hR
  show (f ctx₁).run ctx₁ = (f ctx₂).run ctx₂
  rw [hind ctx₁ ctx₂ hR ctx₁ ctx₂ hR, hf ctx₁ ctx₂ hR]

theorem withReader {g : Context → Context} (hg : ∀ ctx₁ ctx₂, R ctx₁ ctx₂ → R (g ctx₁) (g ctx₂))
    {m : EvalAt α} (h : Indifferent R m) : Indifferent R (withReader g m) :=
  fun ctx₁ ctx₂ hR => h (g ctx₁) (g ctx₂) (hg ctx₁ ctx₂ hR)

theorem within (o : Overlay) (ho : ∀ ctx₁ ctx₂, R ctx₁ ctx₂ → R (o.apply ctx₁) (o.apply ctx₂))
    {m : EvalAt α} (h : Indifferent R m) : Indifferent R (EvalMonad.within o m) :=
  withReader ho h

theorem tryCatch {m : EvalAt α} {f : OlapError → EvalAt α} (hm : Indifferent R m)
    (hf : ∀ e, Indifferent R (f e)) : Indifferent R (MonadExcept.tryCatch m f) := by
  intro ctx₁ ctx₂ hR
  show MonadExcept.tryCatch (m.run ctx₁) (fun e => (f e).run ctx₁) =
    MonadExcept.tryCatch (m.run ctx₂) (fun e => (f e).run ctx₂)
  rw [hm ctx₁ ctx₂ hR]
  congr
  funext e
  exact hf e ctx₁ ctx₂ hR

theorem forIn_list {f : γ → β → EvalAt (ForInStep β)} :
    ∀ (xs : List γ), (∀ x ∈ xs, ∀ b, Indifferent R (f x b)) → ∀ b,
      Indifferent R (forIn xs b f)
  | [], _, b => pure b
  | x :: xs, h, b => by
    rw [List.forIn_cons]
    refine bind (h x List.mem_cons_self b) fun step => ?_
    cases step with
    | done b => exact pure b
    | yield b => exact forIn_list xs (fun y hy => h y (List.mem_cons_of_mem x hy)) b

theorem forIn_stream {f : Tuple → β → EvalAt (ForInStep β)} (h : ∀ t b, Indifferent R (f t b))
    (s : TupleStream) (b : β) : Indifferent R (forIn s b f) := by
  rw [TupleStream.forIn_eq_forIn_toList]
  exact forIn_list _ (fun t _ => h t) b

end Indifferent

end EvalAt

end OlapCalc
