import OlapCalc.Proofs.ResultLimit
import OlapCalc.Proofs.NodeTyping

/-!
How many members the tuples of a set have.

A set's tuples can be handed over in three forms, and a sequence is only described; the prefix
of a product that a consumer collects is the prefix of the product's tuples, so every form of a
set has the same tuples (`TupleSet.toList_stream`). A product of tuple lists has tuples of the
summed arity of its lists, and a native request gives tuples with one member per operand, so the
rows of a native site, merged calculated members included, have as many members as the site has
operands.
-/

namespace List

theorem Forall₂.exists_of_mem_right {α β : Type} {R : α → β → Prop} {xs : List α} {ys : List β}
    (h : Forall₂ R xs ys) {y : β} (hy : y ∈ ys) : ∃ x ∈ xs, R x y := by
  induction h with
  | nil => cases hy
  | @cons x y' xs ys hxy _ ih =>
    rcases List.mem_cons.mp hy with rfl | hy
    . exact ⟨x, List.mem_cons_self, hxy⟩
    . obtain ⟨x', hx', hr⟩ := ih hy
      exact ⟨x', List.mem_cons_of_mem x hx', hr⟩

theorem mem_of_filterMapM_eq_ok {ε α β : Type} {f : α → Except ε (Option β)} :
    ∀ {xs : List α} {ys : List β}, xs.filterMapM f = .ok ys → ∀ y ∈ ys, ∃ x ∈ xs, f x = .ok (some y)
  | [], ys, h => by
    cases h
    simp
  | x :: xs, ys, h => by
    rw [List.filterMapM_cons] at h
    obtain ⟨o, hx, h⟩ := OlapCalc.bind_eq_ok.mp h
    cases o with
    | none =>
      intro y hy
      obtain ⟨x', hx', hy⟩ := mem_of_filterMapM_eq_ok h y hy
      exact ⟨x', List.mem_cons_of_mem x hx', hy⟩
    | some b =>
      obtain ⟨rest, hrest, h⟩ := OlapCalc.bind_eq_ok.mp h
      cases h
      intro y hy
      rcases List.mem_cons.mp hy with rfl | hy
      . exact ⟨x, List.mem_cons_self, hx⟩
      . obtain ⟨x', hx', hy⟩ := mem_of_filterMapM_eq_ok hrest y hy
        exact ⟨x', List.mem_cons_of_mem x hx', hy⟩

end List

namespace OlapCalc

namespace TupleStream

theorem foldl_blocks {C : List Tuple} {step : List Tuple × Nat → Tuple → List Tuple × Nat}
    (hstep : ∀ acc t, step acc t =
      if acc.2 = 0 then acc else (acc.1 ++ (C.take acc.2).map (t ++ ·), acc.2 - (C.take acc.2).length)) :
    ∀ (l acc : List Tuple) (k : Nat), l.foldl step (acc, k) =
      (acc ++ (l.flatMap fun t => C.map (t ++ ·)).take k,
        k - min k (l.flatMap fun t => C.map (t ++ ·)).length)
  | [], acc, k => by simp
  | t :: l, acc, k => by
    rw [List.foldl_cons, hstep]
    by_cases hk : k = 0
    . rw [if_pos hk, hk, foldl_blocks hstep l acc 0]
      simp
    . rw [if_neg hk, foldl_blocks hstep l]
      simp only [List.flatMap_cons, List.take_append, List.length_append, List.length_map,
        List.length_take, List.map_take, List.append_assoc, Prod.mk.injEq]
      constructor
      . congr 3
        omega
      . omega

theorem productPrefix_eq_take : ∀ (lists : List (List Tuple)) (n : Nat),
    productPrefix lists n = (cartesian lists).take n
  | [], _ => by simp [productPrefix, cartesian]
  | [l], n => by simp [productPrefix, cartesian]
  | l :: r :: rest, n => by
    rw [cartesian_cons l (List.cons_ne_nil r rest)]
    simp only [productPrefix]
    rw [foldl_blocks (C := cartesian (r :: rest)) (fun acc t => ?_) l [] n]
    . simp
    -- each block is the front of the rest's product
    simp only [beq_iff_eq, productPrefix_eq_take (r :: rest)]

theorem firstN_eq_take : ∀ (s : TupleStream) (n : Nat), s.firstN n = s.toList.take n
  | .list _, _ => rfl
  | .product lists, n => productPrefix_eq_take lists n
  | .take k s, n => by
    rw [firstN, firstN_eq_take s, toList, List.take_take, Nat.min_comm]

theorem collect_eq_toList (s : TupleStream) : s.collect = s.toList := by
  cases s with
  | take n s => exact firstN_eq_take s n
  | _ => rfl

end TupleStream

namespace TupleSet

@[simp] theorem toList_stream (s : TupleSet) : s.stream.toList = s.toList := by
  cases s with
  | iterable s => exact (TupleStream.collect_eq_toList s).symm
  | _ => rfl

@[simp] theorem toList_adapt (s : TupleSet) (style : ResultStyle) :
    (s.adapt style).toList = s.toList := by
  cases style <;> cases s <;> rfl

@[simp] theorem toList_deliver (ts : List Tuple) (style : ResultStyle) :
    (deliver ts style).toList = ts := by
  cases style <;> rfl

end TupleSet

theorem length_of_mem_cartesian {lists : List (List Tuple)} {arities : List Nat}
    (h : List.Forall₂ (fun l a => ∀ t ∈ l, t.length = a) lists arities) :
    ∀ t ∈ cartesian lists, t.length = arities.foldr (· + ·) 0 := by
  induction h with
  | nil => simp [cartesian]
  | @cons l a ls as hl hrest ih =>
    intro t ht
    cases ls with
    | nil =>
      cases hrest
      simpa using hl t ht
    | cons r rest =>
      rw [cartesian_cons l (List.cons_ne_nil r rest), List.mem_flatMap] at ht
      obtain ⟨u, hu, ht⟩ := ht
      obtain ⟨v, hv, rfl⟩ := List.mem_map.mp ht
      rw [List.length_append, hl u hu, ih v hv, List.foldr_cons]

theorem length_of_mem_cartesian_singles {lists : List (List Tuple)}
    (h : ∀ l ∈ lists, ∀ t ∈ l, t.length = 1) : ∀ t ∈ cartesian lists, t.length = lists.length := by
  have hsum : ∀ ls : List (List Tuple), (ls.map fun _ => 1).foldr (· + ·) 0 = ls.length := by
    intro ls
    induction ls with
    | nil => rfl
    | cons l ls ih => rw [List.map_cons, List.foldr_cons, ih, Nat.add_comm, List.length_cons]
  have hall : List.Forall₂ (fun l a => ∀ t ∈ l, t.length = a) lists (lists.map fun _ => 1) := by
    rw [List.forall₂_map_right_iff]
    exact List.forall₂_same.mpr h
  intro t ht
  rw [length_of_mem_cartesian hall t ht, hsum]

namespace Cube

theorem execute_subset_cartesian {c : Cube} {r : NativeRequest} {rows : List Tuple}
    (h : c.execute r = .ok rows) :
    ∃ lists, List.Forall₂ (fun s l => ∃ ms, c.sourceMembers s = .ok ms ∧ l = ms.map ([·])) r.args lists ∧
      ∀ t ∈ rows, t ∈ cartesian lists := by
  unfold execute at h
  obtain ⟨lists, hlists, h⟩ := bind_eq_ok.mp h
  obtain ⟨measures, -, h⟩ := bind_eq_ok.mp h
  refine ⟨lists, (List.forall₂_of_mapM_eq_ok hlists).imp fun s l hs => ?_, ?_⟩
  . obtain ⟨ms, hms, hs⟩ := bind_eq_ok.mp hs
    exact ⟨ms, hms, (Except.ok.inj hs).symm⟩
  split at h
  . cases h
    intro t ht
    exact (List.mem_filter.mp ht).1
  . obtain ⟨ranked, hranked, h⟩ := bind_eq_ok.mp h
    cases h
    intro t ht
    obtain ⟨p, hp, rfl⟩ := List.mem_map.mp ht
    have hp := List.mem_mergeSort.mp (List.mem_of_mem_take hp)
    obtain ⟨t', ht', hkey⟩ := (List.forall₂_of_mapM_eq_ok hranked).exists_of_mem_right hp
    obtain ⟨key, -, hkey⟩ := bind_eq_ok.mp hkey
    cases hkey
    exact (List.mem_filter.mp ht').1
  . intro t ht
    obtain ⟨t', ht', hkeep⟩ := List.mem_of_filterMapM_eq_ok h t ht
    obtain ⟨v, -, hkeep⟩ := bind_eq_ok.mp hkeep
    -- a filtered row is the product's tuple itself
    have ht : t' = t := by
      split at hkeep
      . split at hkeep <;> cases hkeep
        rfl
      . cases hkeep
    exact ht ▸ (List.mem_filter.mp ht').1

theorem execute_arity {c : Cube} {r : NativeRequest} {rows : List Tuple}
    (h : c.execute r = .ok rows) : ∀ t ∈ rows, t.length = r.args.length := by
  obtain ⟨lists, hlists, hsub⟩ := execute_subset_cartesian h
  have hsingles : ∀ l ∈ lists, ∀ t ∈ l, t.length = 1 := by
    intro l hl t ht
    obtain ⟨s, -, ms, -, rfl⟩ := hlists.exists_of_mem_right hl
    obtain ⟨m, -, rfl⟩ := List.mem_map.mp ht
    rfl
  intro t ht
  rw [hlists.length_eq]
  exact length_of_mem_cartesian_singles hsingles t (hsub t ht)

end Cube

namespace Limiter

/-- Every tuple the limiter holds has `a` members. -/
def HasArity (a : Nat) (l : Limiter) : Prop := ∀ t ∈ l.tuples.toList, t.length = a

theorem HasArity.empty (a K : Nat) : HasArity a ⟨K, #[]⟩ := by
  simp [HasArity]

theorem HasArity.push {a : Nat} {l l' : Limiter} {t : Tuple} (hl : HasArity a l)
    (ht : t.length = a) (h : l.push t = .ok l') : HasArity a l' := by
  intro u hu
  rw [push_tuples h, Array.toList_push, List.mem_append, List.mem_singleton] at hu
  rcases hu with hu | rfl
  . exact hl u hu
  . exact ht

theorem HasArity.push_yields {a : Nat} {l : Limiter} {t : Tuple} (hl : HasArity a l)
    (ht : t.length = a) : EvalAt.Yields (HasArity a) (liftExcept (l.push t)) :=
  EvalAt.Yields.liftExcept fun _ h => hl.push ht h

end Limiter

namespace EvalAt.Yields

variable {α : Type}

theorem forIn_mem {γ : Type} {I : α → Prop} {f : γ → α → EvalAt (ForInStep α)} :
    ∀ (ts : List γ), (∀ t ∈ ts, ∀ a, I a → Yields (fun s => I s.value) (f t a)) →
      ∀ a, I a → Yields I (ForIn.forIn ts a f)
  | [], _, _, ha => pure ha
  | t :: ts, hf, a, ha => by
    rw [List.forIn_cons]
    refine bind (hf t List.mem_cons_self a ha) fun s hs => ?_
    cases s with
    | done b => exact pure hs
    | yield b => exact forIn_mem ts (fun t' ht' => hf t' (List.mem_cons_of_mem t ht')) b hs

theorem throw_bind {β : Type} {P : β → Prop} (e : OlapError) (f : α → EvalAt β) :
    Yields P (MonadExcept.throw e >>= f) :=
  bind (Yields.throw e) fun _ (h : False) => h.elim

end EvalAt.Yields

namespace Env

open EvalAt

variable (env : Env)

theorem nativeOp_stored {ctx : Context} {plan : NativePlan} {required nonEmpty : Bool}
    {r : NativeOp × Bool} (h : env.nativeOp ctx plan required nonEmpty = .ok r) :
    ∀ s ∈ plan.sources, s.stored.isSome := by
  intro s hs
  by_contra hnone
  have hany : (plan.sources.any fun x => x.stored.isNone) = true :=
    List.any_eq_true.mpr ⟨s, hs, by simpa [Option.isNone_iff_eq_none, Option.isSome_iff_ne_none] using hnone⟩
  unfold nativeOp at h
  dsimp only at h
  -- whichever the operator, a disabled one fails at once and an enabled one at the stored check
  split at h
  all_goals
    split at h
    . obtain ⟨_, h, -⟩ := bind_eq_ok.mp h
      cases h
    . obtain ⟨_, -, h⟩ := bind_eq_ok.mp h
      obtain ⟨_, h, -⟩ := bind_eq_ok.mp h
      cases h

theorem keepLimited_arity {a : Nat} {l : Limiter} (hl : l.HasArity a) (tuples : TupleStream)
    (ht : ∀ t ∈ tuples.toList, t.length = a) (drop : Tuple → EvalAt Bool) :
    Yields (Limiter.HasArity a) (env.keepLimited l tuples drop) := by
  simp only [keepLimited, TupleStream.forIn_eq_forIn_toList, bind_pure]
  refine Yields.forIn_mem _ (fun t hmem b hb => ?_) l hl
  refine Yields.bind Yields.trivial fun _ _ => Yields.bind Yields.trivial fun kept _ => ?_
  cases kept
  . exact Yields.bind (hb.push_yields (ht t hmem)) fun _ h => Yields.pure h
  . exact Yields.pure hb

theorem mergeCalculated_arity (fuel : Nat) (sources : List ArgSource) (nonEmpty : Bool)
    {l : Limiter} (hl : l.HasArity sources.length) :
    Yields (Limiter.HasArity sources.length) (env.mergeCalculated fuel sources nonEmpty l) := by
  cases fuel with
  | zero => exact Yields.throw _
  | succ fuel =>
    simp only [mergeCalculated, TupleStream.forIn_eq_forIn_toList, bind_pure]
    refine Yields.bind (Gathered.forIn_quiet (fun s _ => by cases s.stored <;> rfl)
      sources).yields fun st hst => ?_
    have hsingles : ∀ t ∈ (TupleStream.product st.1.toList).toList, t.length = sources.length := by
      intro t ht
      rw [TupleStream.toList, hst.1] at ht
      have h := length_of_mem_cartesian_singles (fun l hl u hu => ?_) t ht
      . rwa [List.length_map] at h
      obtain ⟨s, -, rfl⟩ := List.mem_map.mp hl
      obtain ⟨m, -, rfl⟩ := List.mem_map.mp hu
      rfl
    -- the room claimed up front only fails
    refine Yields.bind Yields.trivial fun _ _ => ?_
    -- in keep-empty mode the room for every combination is checked first
    split
    case' isTrue => refine Yields.bind Yields.trivial fun _ _ => ?_
    -- only the pushes change the limiter, each with a combination of the operands' members
    all_goals
      refine Yields.forIn_mem _ (fun t hmem b hb => ?_) l hl
      split
      . exact Yields.pure hb
      refine Yields.bind Yields.trivial fun _ _ => ?_
      split
      . refine Yields.bind Yields.trivial fun _ _ => ?_
        split
        . exact Yields.pure hb
        . exact Yields.bind (hb.push_yields (hsingles t hmem)) fun _ h => Yields.pure h
      . exact Yields.bind (hb.push_yields (hsingles t hmem)) fun _ h => Yields.pure h

theorem attempt_arity {site : NativeSite} {a : Nat} (hsite : site.Ranges a) (fuel : Nat)
    (nonEmpty : Bool) :
    Yields (fun r => ∀ ts, r = .ok ts → ∀ t ∈ ts, t.length = a) (env.attempt fuel site nonEmpty) := by
  cases fuel with
  | zero => exact Yields.throw _
  | succ fuel =>
    simp only [attempt]
    split
    . exact Yields.pure fun _ h => by cases h
    next plan hplan =>
    have harity := hsite plan hplan
    subst harity
    refine Yields.bind Yields.trivial fun ctx _ => ?_
    split
    . exact Yields.pure fun _ h => by cases h
    next op ne hop =>
    -- every operand has stored members, so the request has one source per operand
    have hargs : (plan.sources.filterMap (·.stored)).length = plan.sources.length :=
      List.filterMap_length_eq_length.mpr (env.nativeOp_stored hop)
    -- a site being resolved already is a loop; otherwise its context is resolved first
    split
    . exact Yields.throw_bind _ _
    refine Yields.bind Yields.trivial fun constraint _ => ?_
    split
    . exact Yields.pure fun _ h => by cases h
    split
    . exact Yields.pure fun _ h => by cases h
    refine Yields.bind Yields.trivial fun _ _ => ?_
    refine Yields.bind (Yields.liftExcept fun rows h => Cube.execute_arity h) fun rows hrows => ?_
    refine Yields.bind (env.keepLimited_arity (Limiter.HasArity.empty _ _) (.list rows)
      (fun t ht => (hrows t ht).trans hargs) _) fun limiter hlimiter => ?_
    split
    . exact Yields.bind (env.mergeCalculated_arity fuel _ _ hlimiter) fun merged hmerged =>
        Yields.pure fun _ h => by cases h; exact hmerged
    . exact Yields.pure fun _ h => by cases h; exact hlimiter

theorem dispatch_arity {site : NativeSite} {a : Nat} (hsite : site.Ranges a) (fuel : Nat)
    (nonEmpty : Bool) :
    Yields (fun r => ∀ ts, r = some ts → ∀ t ∈ ts, t.length = a) (env.dispatch fuel site nonEmpty) := by
  cases fuel with
  | zero => exact Yields.throw _
  | succ fuel =>
    simp only [dispatch]
    refine Yields.bind (env.attempt_arity hsite fuel nonEmpty) fun r hr => ?_
    split
    . next _ ts => exact Yields.pure fun _ h => by cases h; exact hr ts rfl
    -- a plan that does not apply hands back nothing, or fails when it must apply
    split
    . exact Yields.pure fun _ h => by cases h
    split
    . exact Yields.throw _
    . exact Yields.pure fun _ h => by cases h

end Env

end OlapCalc
