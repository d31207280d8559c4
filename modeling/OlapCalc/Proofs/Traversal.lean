import Mathlib.Data.List.Basic
import OlapCalc.Eval.TupleSet

/-!
A loop over a sequence sees the sequence's tuples in order.

A sequence is fed to a loop body without being built: a product one tuple at a time, a prefix
by counting the tuples down. Whatever the description, the loop computes what the loop over the
list of the sequence's tuples computes, so the properties of the operators that stream their
results are proved over plain lists.
-/

namespace OlapCalc

theorem cartesian_cons (l : List Tuple) {ls : List (List Tuple)} (h : ls ≠ []) :
    cartesian (l :: ls) = l.flatMap fun t => (cartesian ls).map (t ++ ·) := by
  cases ls with
  | nil => exact absurd rfl h
  | cons _ _ => rfl

namespace TupleStream

variable {m : Type → Type} [Monad m] [LawfulMonad m]

theorem feedList_eq_bindList {β : Type} (f : Tuple → β → m (ForInStep β)) (ts : List Tuple)
    (b : β) : feedList f ts b = (ForInStep.yield b).bindList f ts := by
  unfold feedList
  generalize ForInStep.yield b = s
  induction ts generalizing s with
  | nil => rfl
  | cons t ts ih =>
    rw [List.foldlM_cons, ForInStep.bindList_cons']
    -- the loop's step is the bind of a finished or running state
    cases s <;> simp only [ih] <;> rfl

theorem feedProduct_cons {β : Type} (f : Tuple → β → m (ForInStep β)) (l : List Tuple)
    (rest : List (List Tuple)) (pre : Tuple) (b : β) :
    feedProduct f (l :: rest) pre b =
      (ForInStep.yield b).bindList (fun t => feedProduct f rest (pre ++ t)) l := by
  rw [feedProduct, ← feedList_eq_bindList]
  rfl

omit [LawfulMonad m] in
theorem bindList_map {β : Type} (f : Tuple → β → m (ForInStep β)) (g : Tuple → Tuple)
    (l : List Tuple) (s : ForInStep β) :
    s.bindList f (l.map g) = s.bindList (fun t => f (g t)) l := by
  induction l generalizing s with
  | nil => rfl
  | cons t l ih => simp only [List.map_cons, ForInStep.bindList_cons, ih]

theorem bindList_flatMap {β : Type} (f : Tuple → β → m (ForInStep β))
    (block : Tuple → List Tuple) (l : List Tuple) (s : ForInStep β) :
    s.bindList f (l.flatMap block) =
      s.bindList (fun t b => (ForInStep.yield b).bindList f (block t)) l := by
  induction l generalizing s with
  | nil => rfl
  | cons t l ih =>
    rw [List.flatMap_cons, ForInStep.bindList_append, ForInStep.bindList_cons']
    simp only [ih]
    cases s <;> simp

theorem feedProduct_eq {β : Type} (f : Tuple → β → m (ForInStep β)) :
    ∀ (lists : List (List Tuple)) (pre : Tuple) (b : β), lists ≠ [] →
      feedProduct f lists pre b = (ForInStep.yield b).bindList f ((cartesian lists).map (pre ++ ·))
  | [], _, _, h => absurd rfl h
  | [l], pre, b, _ => by
    rw [feedProduct_cons, bindList_map]
    rfl
  | l :: r :: rest, pre, b, _ => by
    rw [feedProduct_cons, cartesian_cons l (List.cons_ne_nil r rest), List.map_flatMap,
      bindList_flatMap]
    congr
    funext t b
    rw [feedProduct_eq f (r :: rest) (pre ++ t) b (List.cons_ne_nil r rest), List.map_map]
    congr
    funext u
    simp

theorem run_feed_take {γ : Type} (f : Tuple → γ → m (ForInStep γ)) (n : Nat) (s : TupleStream)
    (b : γ)
    (ih : ∀ {δ : Type} (g : Tuple → δ → m (ForInStep δ)) (a : δ),
      ForInStep.run <$> feed g s a = ForInStep.run <$> (ForInStep.yield a).bindList g s.toList) :
    ForInStep.run <$> feed f (.take n s) b =
      ForInStep.run <$> (ForInStep.yield b).bindList f (s.toList.take n) := by
  rcases Nat.eq_zero_or_pos n with rfl | hn
  . simp [feed]
  . simp only [feed, beq_iff_eq, Nat.pos_iff_ne_zero.mp hn, if_false]
    -- both ends of the counted loop hand the caller a running state
    rw [map_bind]
    refine (bind_congr fun st => show _ = pure (ForInStep.run st).1 from ?_).trans ?_
    . rcases st with ⟨_, _⟩ | ⟨_, _⟩ <;> simp
    rw [bind_pure_comp, show (fun st : ForInStep (γ × Nat) => st.run.1) = Prod.fst ∘ ForInStep.run
      from rfl, comp_map, ih]
    generalize s.toList = ts
    induction ts generalizing b n with
    | nil => simp
    | cons t ts ihts =>
      obtain ⟨k, rfl⟩ := Nat.exists_eq_add_one_of_ne_zero (Nat.pos_iff_ne_zero.mp hn)
      simp only [ForInStep.bindList_cons, ForInStep.bind_yield, List.take_succ_cons, bind_assoc,
        map_bind]
      refine bind_congr fun r => ?_
      rcases r with b' | b'
      . simp
      . rcases Nat.eq_zero_or_pos k with rfl | hk
        . simp
        . have hmore : ¬ k + 1 ≤ 1 := by omega
          simp only [hmore, if_false, Nat.add_sub_cancel, pure_bind]
          exact ihts k b' hk

theorem run_feed {γ : Type} (f : Tuple → γ → m (ForInStep γ)) (s : TupleStream) (b : γ) :
    ForInStep.run <$> feed f s b = ForInStep.run <$> (ForInStep.yield b).bindList f s.toList := by
  induction s generalizing γ with
  | list ts => rw [feed, feedList_eq_bindList]; rfl
  | product lists =>
    cases lists with
    | nil => rfl
    | cons l rest =>
      rw [feed, feedProduct_eq f _ [] b (List.cons_ne_nil l rest)]
      . simp [toList]
      . exact List.cons_ne_nil l rest
  | take n s ih => exact run_feed_take f n s b ih

theorem forIn_eq_forIn_toList {β : Type} (s : TupleStream) (b : β)
    (f : Tuple → β → m (ForInStep β)) : forIn s b f = forIn s.toList b f := by
  rw [List.forIn_eq_bindList, ← run_feed]
  show feed f s b >>= _ = _
  rw [← bind_pure_comp]
  congr
  funext st
  cases st <;> rfl

end TupleStream
end OlapCalc
