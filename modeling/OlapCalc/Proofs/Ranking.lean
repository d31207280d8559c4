import Mathlib
import OlapCalc.Proofs.SortKeys
import OlapCalc.Proofs.ShapeInference
import OlapCalc.Eval.Core

/-!
The ranking operators sort stably.

`Order` sorts the tuples of its set by their keys with `compareKeys`, ascending or descending;
the in-memory top and bottom counts sort them by their numeric keys with `rankKeyLe` and keep a
prefix. Each sort is a merge sort of the keyed tuples. `StableSort le l s` says what a stable sort
is without saying how it is computed: `s` is a permutation of `l` in `le` order, and the elements
equivalent to one another come in their order in `l`. For a total preorder the merge sort is a
stable sort, and there is only one, so the result of each operator is determined by its keys.
-/

namespace OlapCalc

/-- `sorted` is `l` sorted stably by `le`: a permutation of `l` in `le` order, in which the
elements equivalent to any element of `l` come in their order in `l`. -/
structure StableSort {α : Type} (le : α → α → Bool) (l sorted : List α) : Prop where
  perm : sorted.Perm l
  ordered : sorted.Pairwise fun a b => le a b
  ties : ∀ a ∈ l, sorted.filter (fun b => le a b && le b a) = l.filter (fun b => le a b && le b a)

namespace StableSort

variable {α : Type} {le : α → α → Bool}

theorem map {β : Type} {le' : β → β → Bool} {f : α → β} {l s : List α} (h : StableSort le l s)
    (hf : ∀ a b, le a b = le' (f a) (f b)) : StableSort le' (l.map f) (s.map f) where
  perm := h.perm.map f
  ordered := List.pairwise_map.2 (h.ordered.imp fun hab => by rwa [← hf])
  ties := by
    intro b hb
    obtain ⟨a, ha, rfl⟩ := List.mem_map.1 hb
    have hp : ((fun b => le' (f a) b && le' b (f a)) ∘ f) = fun b => le a b && le b a := by
      funext b
      simp [hf]
    rw [List.filter_map, List.filter_map, hp, h.ties a ha]

theorem of_total (trans : ∀ a b c, le a b → le b c → le a c) (total : ∀ a b, le a b || le b a)
    (l : List α) : StableSort le l (l.mergeSort le) where
  perm := List.mergeSort_perm l le
  ordered := List.pairwise_mergeSort trans total l
  ties := by
    intro a _
    -- the elements equivalent to `a` are ordered among themselves, so the sort keeps them as a
    -- sublist, and it has as many of them as `l`
    have hc : (l.filter fun b => le a b && le b a).Pairwise fun x y => le x y := by
      refine List.pairwise_of_forall_mem_list fun x hx y hy => ?_
      simp only [List.mem_filter, Bool.and_eq_true] at hx hy
      exact trans x a y hx.2.2 hy.2.1
    have hsub := (List.sublist_mergeSort trans total hc List.filter_sublist).filter
      (fun b => le a b && le b a)
    rw [List.filter_filter, List.filter_congr (fun b _ => Bool.and_self _)] at hsub
    have hlen := ((List.mergeSort_perm l le).filter (fun b => le a b && le b a)).length_eq
    exact (hsub.eq_of_length hlen.symm).symm

theorem mergeSort {l : List α} (trans : ∀ a ∈ l, ∀ b ∈ l, ∀ c ∈ l, le a b → le b c → le a c)
    (total : ∀ a ∈ l, ∀ b ∈ l, le a b || le b a) : StableSort le l (l.mergeSort le) := by
  -- sort the elements of `l` as a type of their own, where the order is total
  have h : StableSort (fun a b : {x // x ∈ l} => le a.1 b.1) l.attach (l.attach.mergeSort _) :=
    of_total (fun a b c => trans a.1 a.2 b.1 b.2 c.1 c.2) (fun a b => total a.1 a.2 b.1 b.2) _
  have hmap : StableSort le (l.attach.map Subtype.val) ((l.attach.mergeSort _).map Subtype.val) :=
    h.map fun _ _ => rfl
  rwa [List.map_mergeSort (s := le) fun _ _ _ _ => rfl, List.attach_map_subtype_val] at hmap

theorem eq_of_filter_eq {s s' : List α} (refl : ∀ a ∈ s, le a a) (hp : s.Perm s')
    (hs : s.Pairwise fun a b => le a b) (hs' : s'.Pairwise fun a b => le a b)
    (hf : ∀ a ∈ s, s.filter (fun b => le a b && le b a) = s'.filter (fun b => le a b && le b a)) :
    s = s' := by
  induction s generalizing s' with
  | nil => exact hp.symm.eq_nil.symm
  | cons x r ih =>
    cases s' with
    | nil => exact absurd hp.eq_nil (List.cons_ne_nil _ _)
    | cons y r' =>
      -- both heads are least, so they are equivalent and each heads the other's class
      have hxy : le x y := by
        rcases List.mem_cons.1 (hp.mem_iff.2 List.mem_cons_self) with hyx | hy
        · rw [hyx]
          exact refl x List.mem_cons_self
        · exact List.rel_of_pairwise_cons hs hy
      have hyx : le y x := by
        rcases List.mem_cons.1 (hp.mem_iff.1 List.mem_cons_self) with hxy' | hx
        · rw [← hxy']
          exact refl x List.mem_cons_self
        · exact List.rel_of_pairwise_cons hs' hx
      have hxx := refl x List.mem_cons_self
      have hcls := hf x List.mem_cons_self
      simp only [List.filter_cons, hxx, hxy, hyx, Bool.and_self, if_true] at hcls
      obtain ⟨rfl, -⟩ := List.cons.inj hcls
      congr 1
      refine ih (fun a ha => refl a (List.mem_cons_of_mem _ ha)) ((List.perm_cons x).1 hp)
        hs.of_cons hs'.of_cons fun a ha => ?_
      have hfa := hf a (List.mem_cons_of_mem _ ha)
      simp only [List.filter_cons] at hfa
      split at hfa
      · exact (List.cons.inj hfa).2
      · exact hfa

theorem unique {l s s' : List α} (refl : ∀ a ∈ l, le a a) (h : StableSort le l s)
    (h' : StableSort le l s') : s = s' :=
  eq_of_filter_eq (fun a ha => refl a (h.perm.mem_iff.1 ha)) (h.perm.trans h'.perm.symm) h.ordered
    h'.ordered fun a ha => by rw [h.ties a (h.perm.mem_iff.1 ha), h'.ties a (h.perm.mem_iff.1 ha)]

theorem iff_eq_mergeSort {κ : Type} [LinearOrder κ] {l s : List α} (key : α → κ)
    (hkey : ∀ a ∈ l, ∀ b ∈ l, le a b = true ↔ key a ≤ key b) :
    StableSort le l s ↔ s = l.mergeSort le := by
  have hsort : StableSort le l (l.mergeSort le) := by
    refine mergeSort (fun a ha b hb c hc hab hbc => ?_) fun a ha b hb => ?_
    · exact (hkey a ha c hc).2 (((hkey a ha b hb).1 hab).trans ((hkey b hb c hc).1 hbc))
    · rcases le_total (key a) (key b) with h | h
      · simp [(hkey a ha b hb).2 h]
      · simp [(hkey b hb a ha).2 h]
  exact ⟨fun h => h.unique (fun a ha => (hkey a ha a ha).2 le_rfl) hsort, fun h => h ▸ hsort⟩

end StableSort

section Loops

variable {m : Type → Type} [Monad m] [LawfulMonad m]

theorem forIn_push {α β : Type} (g : α → m β) (f : α → Array β → m (ForInStep (Array β)))
    (hf : ∀ a r, f a r = g a >>= fun b => pure (.yield (r.push b))) (l : List α)
    (acc : Array β) : forIn l acc f = (fun bs => acc ++ bs.toArray) <$> l.mapM g := by
  induction l generalizing acc with
  | nil => simp
  | cons a l ih =>
    simp only [List.forIn_cons, hf, List.mapM_cons, bind_assoc, pure_bind, map_bind]
    refine congrArg (g a >>= ·) (funext fun b => ?_)
    rw [ih, ← bind_pure_comp]
    simp [bind_pure_comp]

end Loops

/-- The order the in-memory top count (`top`) and bottom count sort their keyed tuples by. -/
def rankBy (top : Bool) (a b : Option Float × Tuple) : Bool :=
  if top then rankKeyLe b.1 a.1 else rankKeyLe a.1 b.1

/-- The order `Order` sorts its keyed tuples by. -/
def orderBy (descending : Bool) (a b : Value × Tuple) : Bool :=
  if descending then compareKeys b.1 a.1 != .gt else compareKeys a.1 b.1 != .gt

theorem rankBy_stableSort_iff (top : Bool) (keyed sorted : List (Option Float × Tuple)) :
    StableSort (rankBy top) keyed sorted ↔ sorted = keyed.mergeSort (rankBy top) := by
  cases top
  · exact StableSort.iff_eq_mergeSort (fun p => rankKey p.1) fun a _ b _ => rankKeyLe_iff a.1 b.1
  · exact StableSort.iff_eq_mergeSort (fun p => OrderDual.toDual (rankKey p.1))
      fun a _ b _ => rankKeyLe_iff b.1 a.1

theorem orderBy_stableSort_iff (descending : Bool) {keyed : List (Value × Tuple)}
    (h : ∀ p ∈ keyed, p.1.IsScalar) (sorted : List (Value × Tuple)) :
    StableSort (orderBy descending) keyed sorted ↔
      sorted = keyed.mergeSort (orderBy descending) := by
  cases descending
  · exact StableSort.iff_eq_mergeSort (fun p => p.1.sortKey) fun a ha b hb => by
      simpa [orderBy] using compareKeys_ne_gt_iff (h a ha) (h b hb)
  · exact StableSort.iff_eq_mergeSort (fun p => OrderDual.toDual p.1.sortKey) fun a ha b hb => by
      simpa [orderBy] using compareKeys_ne_gt_iff (h b hb) (h a ha)

namespace Env

variable {m : Type → Type} [Monad m] [LawfulMonad m] [MonadExceptOf OlapError m] [EvalMonad m]

theorem evalSet_order (env : Env) (fuel : Nat) (set : SetArg) (key : Node) (descending : Bool)
    (style : ResultStyle) :
    (env.evalSet (fuel + 1) (.order set key descending) style : m TupleSet) = (do
      let s ← env.evalArg fuel set
      let keyed ← s.toList.mapM fun t => do
        liftEval env.check
        let v ← within (.tuple t) (env.eval fuel key)
        pure (v, t)
      pure (TupleSet.deliver ((keyed.mergeSort (orderBy descending)).map (·.2)) style)) := by
  rw [Env.evalSet]
  refine congrArg (_ >>= ·) (funext fun s => ?_)
  dsimp only
  rw [forIn_push (fun t => do
      liftEval env.check
      let v ← within (.tuple t) (env.eval fuel key)
      pure (v, t)) _ (fun t r => by simp only [bind_assoc, pure_bind]), bind_map_left]
  refine congrArg (_ >>= ·) (funext fun keyed => ?_)
  cases descending <;> simp <;> rfl

theorem evalSet_topCount (env : Env) (fuel : Nat) (set : SetArg) (count measure : Node)
    (site : Option NativeSite) (top : Bool) (style : ResultStyle) :
    (env.evalSet (fuel + 1) (.topCount set count (some measure) site top) style : m TupleSet) =
      (site.elim (pure none) fun s => env.dispatch fuel s false) >>= fun delegated =>
        delegated.elim
          (do
            let c ← env.eval fuel count >>= fun v => liftExcept v.toInteger
            let s ← env.evalArg fuel set
            let keyed ← s.toList.mapM fun t => do
              liftEval env.check
              let key ← within (.tuple t) (env.eval fuel measure >>= fun v => liftExcept v.toNumber)
              pure (key, t)
            pure (TupleSet.deliver
              (((keyed.mergeSort (rankBy top)).take (c.getD 0).toNat).map (·.2)) style))
          fun ts => pure (TupleSet.deliver ts style) := by
  cases site <;> rw [Env.evalSet] <;> refine congrArg (_ >>= ·) (funext fun delegated => ?_) <;>
    cases delegated
  -- a delegated set is delivered as the site returned it
  case none.some | some.some => rfl
  -- in memory: the count, then the set, then the keys tuple by tuple
  all_goals
    dsimp only [Option.elim]
    simp only [bind_assoc]
    refine congrArg (_ >>= ·) (funext fun _ => congrArg (_ >>= ·) (funext fun c =>
      congrArg (_ >>= ·) (funext fun s => ?_)))
    rw [forIn_push (fun t => do
        liftEval env.check
        let key ← within (.tuple t) (env.eval fuel measure >>= fun v => liftExcept v.toNumber)
        pure (key, t)) _ (fun t r => by simp only [bind_assoc, pure_bind]), bind_map_left]
    refine congrArg (_ >>= ·) (funext fun keyed => ?_)
    cases top <;> simp <;> rfl

end Env

namespace Compiler

variable {t : FunctionTable} {fuel : Nat} {spec : FunctionSpec} {e : Exp} {name : String}
  {args : List Exp} {n : Node}

theorem build_order (hb : spec.builtin = .order) (h : build t (fuel + 1) spec e name args = .ok n) :
    ∃ s key descending, n = .order s key descending ∧
      (descending = false ∧ (flag args 2 = none ∨ flag args 2 = some "ASC" ∨
          flag args 2 = some "BASC") ∨
        descending = true ∧ (flag args 2 = some "DESC" ∨ flag args 2 = some "BDESC")) := by
  unfold build at h
  rw [hb] at h
  simp only at h
  obtain ⟨s, -, h⟩ := bind_eq_ok.mp h
  obtain ⟨key, -, h⟩ := bind_eq_ok.mp h
  split at h
  next hf => cases h; exact ⟨s, key, false, rfl, .inl ⟨rfl, .inl hf⟩⟩
  next hf => cases h; exact ⟨s, key, false, rfl, .inl ⟨rfl, .inr (.inl hf)⟩⟩
  next hf => cases h; exact ⟨s, key, false, rfl, .inl ⟨rfl, .inr (.inr hf)⟩⟩
  next hf => cases h; exact ⟨s, key, true, rfl, .inr ⟨rfl, .inl hf⟩⟩
  next hf => cases h; exact ⟨s, key, true, rfl, .inr ⟨rfl, .inr hf⟩⟩
  next => cases h

end Compiler

/-- The ranking operators are stable sorts by total preorders. `rankKeyLe` and, on scalars,
`compareKeys` are the orders of keys; the merge sort of each operator is the one stable sort of
its keyed tuples; in memory a top or bottom count keeps the first `max n 0` tuples of that sort,
and `Order` returns all of it, in the direction its flag chooses. -/
theorem ranking_operators_sort_stably :
    (∀ a b : Option Float, rankKeyLe a b = true ↔ rankKey a ≤ rankKey b) ∧
    (∀ a b : Value, a.IsScalar → b.IsScalar → compareKeys a b = compare a.sortKey b.sortKey) ∧
    (∀ top (keyed sorted : List (Option Float × Tuple)),
      StableSort (rankBy top) keyed sorted ↔ sorted = keyed.mergeSort (rankBy top)) ∧
    (∀ descending (keyed : List (Value × Tuple)), (∀ p ∈ keyed, p.1.IsScalar) →
      ∀ sorted, StableSort (orderBy descending) keyed sorted ↔
        sorted = keyed.mergeSort (orderBy descending)) ∧
    (∀ (env : Env) fuel set count measure site top style,
      (env.evalSet (fuel + 1) (.topCount set count (some measure) site top) style :
          EvalOn TupleSet) =
        (site.elim (pure none) fun s => env.dispatch fuel s false) >>= fun delegated =>
          delegated.elim
            (do
              let c ← env.eval fuel count >>= fun v => liftExcept v.toInteger
              let s ← env.evalArg fuel set
              let keyed ← s.toList.mapM fun t => do
                liftEval env.check
                let key ← within (.tuple t)
                  (env.eval fuel measure >>= fun v => liftExcept v.toNumber)
                pure (key, t)
              pure (TupleSet.deliver
                (((keyed.mergeSort (rankBy top)).take (c.getD 0).toNat).map (·.2)) style))
            fun ts => pure (TupleSet.deliver ts style)) ∧
    (∀ (env : Env) fuel set key descending style,
      (env.evalSet (fuel + 1) (.order set key descending) style : EvalOn TupleSet) = (do
        let s ← env.evalArg fuel set
        let keyed ← s.toList.mapM fun t => do
          liftEval env.check
          let v ← within (.tuple t) (env.eval fuel key)
          pure (v, t)
        pure (TupleSet.deliver ((keyed.mergeSort (orderBy descending)).map (·.2)) style))) ∧
    (∀ t fuel spec e name args n, spec.builtin = .order →
      Compiler.build t (fuel + 1) spec e name args = .ok n →
      ∃ s key descending, n = .order s key descending ∧
        (descending = false ∧ (Compiler.flag args 2 = none ∨ Compiler.flag args 2 = some "ASC" ∨
            Compiler.flag args 2 = some "BASC") ∨
          descending = true ∧ (Compiler.flag args 2 = some "DESC" ∨
            Compiler.flag args 2 = some "BDESC"))) :=
  ⟨rankKeyLe_iff, fun _ _ => compareKeys_eq_compare, rankBy_stableSort_iff,
    fun descending _ h => orderBy_stableSort_iff descending h, Env.evalSet_topCount,
    Env.evalSet_order, fun _ _ _ _ _ _ _ hb h => Compiler.build_order hb h⟩

/-- Both hypotheses can be met: scalar keys sorted descending, and `Order` with the `DESC`
flag. -/
theorem ranking_operators_sort_stably_descending :
    let keyed : List (Value × Tuple) := [(.integer 2, []), (.null, []), (.string "a", [])]
    let spec := FunctionTable.fn "Order" 2 3 [.set, .value, .symbol] (.setOf 0) .order
    let args : List Exp := [.member (.mk 0 "[H].[a]" "a" 1 0 none false .regular),
      .literal (.integer 1), .symbol "DESC"]
    (∀ p ∈ keyed, p.1.IsScalar) ∧
      StableSort (orderBy true) keyed (keyed.mergeSort (orderBy true)) ∧
      ∃ n, Compiler.build FunctionTable.builtins 6 spec (.call "Order" .function args) "Order"
          args = .ok n ∧
        ∃ s key descending, n = .order s key descending ∧
          (descending = false ∧ (Compiler.flag args 2 = none ∨
              Compiler.flag args 2 = some "ASC" ∨ Compiler.flag args 2 = some "BASC") ∨
            descending = true ∧ (Compiler.flag args 2 = some "DESC" ∨
              Compiler.flag args 2 = some "BDESC")) := by
  intro keyed spec args
  have hscalar : ∀ p ∈ keyed, p.1.IsScalar := by
    intro p hp
    simp only [keyed, List.mem_cons, List.not_mem_nil, or_false] at hp
    rcases hp with rfl | rfl | rfl
    exacts [.integer 2, .null, .string "a"]
  have hok : (Compiler.build FunctionTable.builtins 6 spec (.call "Order" .function args) "Order"
      args).isOk = true := by decide +kernel
  obtain ⟨n, hn⟩ : ∃ n, Compiler.build FunctionTable.builtins 6 spec (.call "Order" .function args)
      "Order" args = .ok n := by
    revert hok
    cases Compiler.build FunctionTable.builtins 6 spec (.call "Order" .function args) "Order" args
    · simp [Except.isOk, Except.toBool]
    · exact fun _ => ⟨_, rfl⟩
  exact ⟨hscalar, (ranking_operators_sort_stably.2.2.2.1 true keyed hscalar _).2 rfl, n, hn,
    ranking_operators_sort_stably.2.2.2.2.2.2 _ _ spec _ _ args n rfl hn⟩

end OlapCalc
