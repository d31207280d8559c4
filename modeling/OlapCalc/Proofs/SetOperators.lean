import Mathlib
import OlapCalc.Proofs.Ranking
import OlapCalc.Proofs.TupleArity

/-!
The set operators evaluated in memory.

A set literal, `Filter`, `Head`, `Generate` and a cross join that no native site computes build
their results by loops over the tuples of their operands. Each loop is the list of its per-tuple
steps run in order (`forIn_append`, `forIn_select`, `forIn_generate`), so each
operator is the reference it follows: a set literal concatenates what its items give
(`evalSet_enumerate`); `Filter` keeps the tuples at which its condition is true
(`evalSet_filter`); `Head` is a prefix (`evalSet_head`); `Generate` concatenates the sets
generated at the tuples of its source, keeping the first occurrence of a tuple unless `ALL` is
given (`evalSet_generate`); a cross join is the product of its operands (`mem_cartesian`),
without the tuples whose cell is empty in non-empty mode (`evalSet_crossJoin`).
-/

namespace OlapCalc

/-- The tuples the value of a set item gives: none for null, a member as a tuple of one, a tuple
as it is; any other value is an error. -/
def Value.itemTuples (v : Value) : Except OlapError (List Tuple) :=
  if v.isNull then pure []
  else (v.asTuple.map fun t => [t]).mapError fun _ =>
    .internal ("set item evaluated to a " ++ v.typeName)

@[simp] theorem Value.itemTuples_null : Value.null.itemTuples = .ok [] := rfl

@[simp] theorem Value.itemTuples_member (member : Member) :
    (Value.member member).itemTuples = .ok [[member]] := rfl

@[simp] theorem Value.itemTuples_tuple (t : Tuple) : (Value.tuple t).itemTuples = .ok [t] := rfl

namespace Env

section Items

variable {m : Type → Type} [Monad m] [MonadExceptOf OlapError m] [EvalMonad m]

/-- The tuples one item of a set literal gives: those of its node's value, or every tuple of a
spliced set. -/
def itemTuples (env : Env) (fuel : Nat) (item : SetItem) : m (List Tuple) :=
  @SetItem.casesOn (fun _ => m (List Tuple)) item
    (fun n => env.eval fuel n >>= fun v => liftExcept v.itemTuples)
    (fun a => (·.toList) <$> env.evalArg fuel a)

@[simp] theorem itemTuples_single (env : Env) (fuel : Nat) (n : Node) :
    (env.itemTuples fuel (.single n) : m (List Tuple)) =
      env.eval fuel n >>= fun v => liftExcept v.itemTuples := rfl

@[simp] theorem itemTuples_splice (env : Env) (fuel : Nat) (a : SetArg) :
    (env.itemTuples fuel (.splice a) : m (List Tuple)) = (·.toList) <$> env.evalArg fuel a := rfl

end Items

end Env

/-- The elements of `l` whose flag in `keep` is set, in order. -/
def selected {α : Type} (l : List α) (keep : List Bool) : List α :=
  ((l.zip keep).filter (·.2)).map (·.1)

@[simp] theorem selected_nil {α : Type} (keep : List Bool) : selected ([] : List α) keep = [] := rfl

@[simp] theorem selected_cons_cons {α : Type} (a : α) (l : List α) (b : Bool) (keep : List Bool) :
    selected (a :: l) (b :: keep) = if b then a :: selected l keep else selected l keep := by
  cases b <;> rfl

/-- The tuples of a product of lists are the concatenations of one tuple of each list. -/
theorem mem_cartesian : ∀ {lists : List (List Tuple)}, lists ≠ [] → ∀ t : Tuple,
    t ∈ cartesian lists ↔ ∃ parts : List Tuple, List.Forall₂ (· ∈ ·) parts lists ∧ t = parts.flatten
  | [], h, _ => absurd rfl h
  | [l], _, t => by
    constructor
    . intro ht
      exact ⟨[t], .cons ht .nil, by simp⟩
    . rintro ⟨parts, hparts, rfl⟩
      rcases hparts with _ | ⟨hu, hrest⟩
      cases hrest
      simpa [cartesian] using hu
  | l :: r :: rest, _, t => by
    rw [cartesian_cons l (List.cons_ne_nil r rest), List.mem_flatMap]
    constructor
    . rintro ⟨u, hu, ht⟩
      obtain ⟨v, hv, rfl⟩ := List.mem_map.1 ht
      obtain ⟨parts, hparts, rfl⟩ := (mem_cartesian (List.cons_ne_nil r rest) v).1 hv
      exact ⟨u :: parts, .cons hu hparts, by simp⟩
    . rintro ⟨parts, hparts, rfl⟩
      rcases hparts with _ | ⟨hu, hrest⟩
      refine ⟨_, hu, List.mem_map.2 ⟨_, (mem_cartesian (List.cons_ne_nil r rest) _).2
        ⟨_, hrest, rfl⟩, by simp⟩⟩

section Loops

variable {m : Type → Type} [Monad m] [LawfulMonad m]

/-- A loop that appends a computed list per element computes the lists in order. -/
theorem forIn_append {α β : Type} (g : α → m (List β)) (f : α → Array β → m (ForInStep (Array β)))
    (hf : ∀ a r, f a r = g a >>= fun bs => pure (.yield (r ++ bs.toArray))) (l : List α)
    (acc : Array β) : forIn l acc f = (fun bss => acc ++ bss.flatten.toArray) <$> l.mapM g := by
  induction l generalizing acc with
  | nil => simp
  | cons a l ih =>
    simp only [List.forIn_cons, hf, List.mapM_cons, bind_assoc, pure_bind, map_bind]
    refine congrArg (g a >>= ·) (funext fun bs => ?_)
    rw [ih, ← bind_pure_comp]
    simp [bind_pure_comp]

/-- A loop that pushes the elements passing a computed test, into a state whose invariant every
push keeps, computes the tests in order. -/
theorem forIn_select {σ α : Type} (I : σ → Prop) (push : σ → α → σ)
    (hI : ∀ s a, I s → I (push s a)) (test : α → m Bool) (f : α → σ → m (ForInStep σ))
    (hf : ∀ a s, I s → f a s = test a >>= fun b => pure (.yield (if b then push s a else s))) :
    ∀ (l : List α) (s : σ), I s →
      forIn l s f = (fun keep => (selected l keep).foldl push s) <$> l.mapM test
  | [], s, _ => by simp
  | a :: l, s, hs => by
    simp only [List.forIn_cons, hf a s hs, List.mapM_cons, bind_assoc, pure_bind, map_bind]
    refine congrArg (test a >>= ·) (funext fun b => ?_)
    -- the state the rest of the loop starts from keeps the invariant
    have hnext : I (if b then push s a else s) := by
      split_ifs
      exacts [hI s a hs, hs]
    rw [forIn_select I push hI test f hf l _ hnext, ← bind_pure_comp]
    cases b <;> simp [bind_pure_comp]

end Loops

theorem EvalOn.throw_bind {α β : Type} (e : OlapError) (f : α → EvalOn β) :
    (throw e >>= f : EvalOn β) = throw e := rfl

namespace Env

theorem evalSet_enumerate (env : Env) (fuel : Nat) (items : List SetItem) (arity : Nat)
    (style : ResultStyle) :
    (env.evalSet (fuel + 1) (.enumerate items arity) style : EvalOn TupleSet) =
      (fun tss => TupleSet.deliver tss.flatten style) <$> items.mapM (env.itemTuples fuel) := by
  rw [Env.evalSet]
  dsimp only
  rw [forIn_append (env.itemTuples fuel) _ (fun item r => ?_), map_eq_pure_bind]
  . simp
  cases item with
  | single n =>
    simp only [itemTuples_single, bind_assoc]
    refine congrArg (_ >>= ·) (funext fun v => ?_)
    -- null gives nothing, a member or a tuple one tuple, any other value fails alike
    cases v
    case null =>
      rw [Value.itemTuples_null, liftExcept_ok, pure_bind]
      simp
    case member member =>
      rw [Value.itemTuples_member, liftExcept_ok, pure_bind, ← Array.push_eq_append]
    case tuple t =>
      rw [Value.itemTuples_tuple, liftExcept_ok, pure_bind, ← Array.push_eq_append]
    all_goals rfl
  | splice a =>
    dsimp only
    rw [itemTuples_splice, bind_map_left]
    refine congrArg (_ >>= ·) (funext fun s => ?_)
    rw [TupleStream.forIn_eq_forIn_toList, TupleSet.toList_stream,
      forIn_push pure _ (fun t r => (pure_bind _ _).symm), List.mapM_pure, map_pure, pure_bind,
      List.map_id']

section Generate

/-- One generated tuple taken into the result and into the tuples seen: with `ALL` always,
otherwise only when no equal tuple was seen before. -/
def generateStep (all : Bool) (s : Limiter × List Tuple) (item : Tuple) : Limiter × List Tuple :=
  if all then ({ s.1 with tuples := s.1.tuples.push item }, s.2)
  else if s.2.contains item then s
  else ({ s.1 with tuples := s.1.tuples.push item }, item :: s.2)

theorem limit_foldl_generateStep (all : Bool) :
    ∀ (items : List Tuple) (s : Limiter × List Tuple),
      (items.foldl (generateStep all) s).1.limit = s.1.limit
  | [], _ => rfl
  | item :: items, s => by
    rw [List.foldl_cons, limit_foldl_generateStep all items]
    unfold generateStep
    split_ifs <;> rfl

theorem foldl_generateStep_all : ∀ (items : List Tuple) (l : Limiter) (seen : List Tuple),
    items.foldl (generateStep true) (l, seen) = ({ l with tuples := l.tuples ++ items.toArray }, seen)
  | [], l, _ => by simp
  | item :: items, l, seen => by
    rw [List.foldl_cons, generateStep, if_pos rfl, foldl_generateStep_all items]
    simp

theorem foldl_generateStep_dedup : ∀ (items : List Tuple) (l : Limiter) (seen : List Tuple),
    l.tuples.toList = seen.reverse →
      (items.foldl (generateStep false) (l, seen)).1.tuples.toList =
        List.eraseDupsBy.loop (· == ·) items seen
  | [], l, seen, h => by simp [h, List.eraseDupsBy.loop]
  | item :: items, l, seen, h => by
    rw [List.foldl_cons, List.eraseDupsBy.loop.eq_2, generateStep, if_neg Bool.false_ne_true,
      List.contains_eq_any_beq]
    cases hseen : seen.any (item == ·)
    . rw [if_neg Bool.false_ne_true]
      exact foldl_generateStep_dedup items _ _ (by simp [h])
    . rw [if_pos rfl]
      exact foldl_generateStep_dedup items l seen h

variable {m : Type → Type} [Monad m] [LawfulMonad m]

theorem forIn_generateStep (all : Bool)
    (f : Tuple → Limiter × List Tuple → m (ForInStep (Limiter × List Tuple)))
    (hf : ∀ item s, s.1.limit = 0 → f item s = pure (.yield (generateStep all s item))) :
    ∀ (items : List Tuple) (s : Limiter × List Tuple), s.1.limit = 0 →
      forIn items s f = pure (items.foldl (generateStep all) s)
  | [], _, _ => rfl
  | item :: items, s, hs => by
    have hlimit : (generateStep all s item).1.limit = 0 :=
      (limit_foldl_generateStep all [item] s).trans hs
    rw [List.forIn_cons, hf item s hs, pure_bind, List.foldl_cons]
    exact forIn_generateStep all f hf items _ hlimit

/-- The loop over the source tuples, its body given by an equation: without a limit it takes
the generated sets in order. -/
theorem forIn_generate (all : Bool) (block : Tuple → m (List Tuple))
    (f : Tuple → Limiter × List Tuple → m (ForInStep (Limiter × List Tuple)))
    (hf : ∀ t s, s.1.limit = 0 →
      f t s = block t >>= fun items => pure (.yield (items.foldl (generateStep all) s))) :
    ∀ (ts : List Tuple) (s : Limiter × List Tuple), s.1.limit = 0 →
      forIn ts s f = (fun blocks => blocks.flatten.foldl (generateStep all) s) <$> ts.mapM block
  | [], _, _ => by simp
  | t :: ts, s, hs => by
    simp only [List.forIn_cons, hf t s hs, List.mapM_cons, bind_assoc, pure_bind, map_bind]
    refine congrArg (block t >>= ·) (funext fun items => ?_)
    rw [forIn_generate all block f hf ts _ ((limit_foldl_generateStep all items s).trans hs),
      ← bind_pure_comp]
    simp [bind_pure_comp, List.foldl_append]

end Generate

section Limited

variable {m : Type → Type} [Monad m] [LawfulMonad m] [MonadExceptOf OlapError m] [EvalMonad m]

theorem foldl_generateStep_initial (all : Bool) (items : List Tuple) :
    (items.foldl (generateStep all) (⟨0, #[]⟩, [])).1 =
      ⟨0, (if all then items else items.eraseDups).toArray⟩ := by
  cases all
  . have hlimit := limit_foldl_generateStep false items (⟨0, #[]⟩, [])
    have htuples := foldl_generateStep_dedup items ⟨0, #[]⟩ [] rfl
    generalize (items.foldl (generateStep false) (⟨0, #[]⟩, [])).1 = l at hlimit htuples
    rcases l with ⟨limit, tuples⟩
    simp only at hlimit htuples
    rw [hlimit, if_neg Bool.false_ne_true]
    congr 1
    apply Array.ext'
    rw [htuples, List.toList_toArray]
    rfl
  . rw [foldl_generateStep_all, if_pos rfl]
    simp

theorem generateLimited_unlimited (env : Env) (source : TupleSet) (each : Tuple → m TupleSet)
    (all : Bool) :
    env.generateLimited ⟨0, #[]⟩ source each all =
      (fun (blocks : List (List Tuple)) =>
          (⟨0, (if all then blocks.flatten else blocks.flatten.eraseDups).toArray⟩ : Limiter)) <$>
        source.toList.mapM (fun t => do
          liftEval env.check
          (·.toList) <$> each t) := by
  unfold generateLimited
  dsimp only
  rw [TupleStream.forIn_eq_forIn_toList, TupleSet.toList_stream,
    forIn_generate all (fun t => do
        liftEval env.check
        (·.toList) <$> each t) _ (fun t s hs => ?_) _ _ rfl]
  . simp only [bind_pure_comp, Functor.map_map]
    exact congrArg (· <$> _) (funext fun blocks => foldl_generateStep_initial all blocks.flatten)
  -- one source tuple: the generated set is taken in tuple by tuple, pushing never fails
  simp only [bind_assoc, bind_map_left]
  refine congrArg (_ >>= ·) (funext fun _ => congrArg (_ >>= ·) (funext fun b => ?_))
  rw [forIn_generateStep all _ (fun item s' hs' => ?_) _ _ hs, pure_bind]
  cases all
  . by_cases hseen : s'.2.contains item
    . simp [generateStep, hseen]
    . simp [generateStep, hseen, Limiter.push_unlimited hs', liftExcept_ok]
  . simp [generateStep, Limiter.push_unlimited hs', liftExcept_ok]

theorem foldl_push_tuples : ∀ (ts : List Tuple) (l : Limiter),
    ts.foldl (fun l t => { l with tuples := l.tuples.push t }) l =
      { l with tuples := l.tuples ++ ts.toArray }
  | [], l => by simp
  | t :: ts, l => by
    rw [List.foldl_cons, foldl_push_tuples ts]
    simp

theorem keepLimited_unlimited (env : Env) (tuples : TupleStream) (drop : Tuple → m Bool) :
    env.keepLimited ⟨0, #[]⟩ tuples drop =
      (fun keep => (⟨0, (selected tuples.toList keep).toArray⟩ : Limiter)) <$>
        tuples.toList.mapM (fun t => do
          liftEval env.check
          (!·) <$> drop t) := by
  unfold keepLimited
  dsimp only
  rw [TupleStream.forIn_eq_forIn_toList,
    forIn_select (fun l : Limiter => l.limit = 0) (fun l t => { l with tuples := l.tuples.push t })
      (fun _ _ h => h) (fun t => do
        liftEval env.check
        (!·) <$> drop t) _ (fun t l hl => ?_) _ _ rfl, map_eq_pure_bind, bind_assoc]
  . simp [foldl_push_tuples]
  simp only [bind_assoc, bind_map_left]
  refine congrArg (_ >>= ·) (funext fun _ => congrArg (_ >>= ·) (funext fun dropped => ?_))
  cases dropped
  . simp [Limiter.push_unlimited hl, liftExcept_ok]
  . simp

end Limited

section Operators

variable {m : Type → Type} [Monad m] [LawfulMonad m] [MonadExceptOf OlapError m] [EvalMonad m]

/-- A filter delivers what its native site returns; in memory it evaluates its set, then its
condition at each tuple in order, and keeps the tuples where the condition is true, a null
condition counting as false. -/
theorem evalSet_filter (env : Env) (fuel : Nat) (set : SetArg) (condition : Node)
    (site : NativeSite) (style : ResultStyle) :
    (env.evalSet (fuel + 1) (.filter set condition site) style : m TupleSet) =
      env.dispatch fuel site false >>= fun delegated => delegated.elim
        (do
          let s ← env.evalArg fuel set
          let keep ← s.toList.mapM fun t => do
            liftEval env.check
            within (.tuple t)
              (env.eval fuel condition >>= fun v => (·.getD false) <$> liftExcept v.toBoolean)
          pure (TupleSet.deliver (selected s.toList keep) style))
        fun ts => pure (TupleSet.deliver ts style) := by
  rw [Env.evalSet]
  refine congrArg (_ >>= ·) (funext fun delegated => ?_)
  cases delegated
  case some ts => rfl
  case none =>
    dsimp only [Option.elim]
    refine congrArg (_ >>= ·) (funext fun s => ?_)
    rw [TupleStream.forIn_eq_forIn_toList, TupleSet.toList_stream,
      forIn_select (fun _ => True) Array.push (fun _ _ _ => trivial) (fun t => do
        liftEval env.check
        within (.tuple t)
          (env.eval fuel condition >>= fun v => (·.getD false) <$> liftExcept v.toBoolean)) _
      (fun t r _ => ?_) _ _ trivial, bind_map_left]
    . simp
    simp only [bind_assoc, map_eq_pure_bind]
    -- the body keeps the tuple exactly when the condition read true
    refine congrArg (_ >>= ·) (funext fun _ => congrArg (_ >>= ·) (funext fun b => ?_))
    cases b <;> rfl

omit [MonadExceptOf OlapError m] [EvalMonad m] in
theorem toList_head_taken (k : Nat) (s : TupleSet) (style : ResultStyle) :
    TupleSet.toList <$> (if style == .iterable then pure (.iterable (.take k s.stream))
      else pure (TupleSet.deliver (TupleStream.take k s.stream).collect style) : m TupleSet) =
      pure (s.toList.take k) := by
  have htaken : (TupleStream.take k s.stream).collect = s.toList.take k := by
    rw [TupleStream.collect_eq_toList, TupleStream.toList, TupleSet.toList_stream]
  split
  . rw [map_pure]
    exact congrArg (pure (f := m)) htaken
  . rw [map_pure, TupleSet.toList_deliver, htaken]

/-- `Head` evaluates its count (one without a count), then its set, and hands over the set's
first tuples, as many as the count says: none for a negative or null count. -/
theorem evalSet_head (env : Env) (fuel : Nat) (set : SetArg) (count : Option Node)
    (style : ResultStyle) :
    TupleSet.toList <$> (env.evalSet (fuel + 1) (.head set count) style : m TupleSet) = (do
      let k ← count.elim (pure 1) fun c =>
        env.eval fuel c >>= fun v => (fun n => (n.getD 0).toNat) <$> liftExcept v.toInteger
      let s ← env.evalArg fuel set
      pure (s.toList.take k)) := by
  rw [Env.evalSet.eq_def]
  dsimp only
  cases count
  . simp only [Option.elim, pure_bind, map_bind]
    exact congrArg (_ >>= ·) (funext fun s => toList_head_taken 1 s style)
  . simp only [Option.elim, map_bind, bind_assoc, bind_map_left, pure_bind]
    exact congrArg (_ >>= ·) (funext fun v => congrArg (_ >>= ·) (funext fun n =>
      congrArg (_ >>= ·) (funext fun s => toList_head_taken _ s style)))

/-- Without a result limit, `Generate` evaluates its source, then the generated set at each
source tuple in order, and delivers their tuples in order: all of them with `ALL`, otherwise the
first occurrence of each. -/
theorem evalSet_generate (env : Env) (hlimit : env.config.resultLimit = 0) (fuel : Nat)
    (source each : SetArg) (all : Bool) (style : ResultStyle) :
    (env.evalSet (fuel + 1) (.generate source each all) style : m TupleSet) = (do
      let s ← env.evalArg fuel source
      let blocks ← s.toList.mapM fun t => do
        liftEval env.check
        (·.toList) <$> within (.tuple t) (env.evalArg fuel each)
      pure (TupleSet.deliver (if all then blocks.flatten else blocks.flatten.eraseDups) style)) := by
  rw [Env.evalSet]
  refine congrArg (_ >>= ·) (funext fun s => ?_)
  rw [hlimit, generateLimited_unlimited, bind_map_left]

/-- The hierarchies a cross join varies: those of the first tuple of each operand. -/
def variedHierarchies (lists : List (List Tuple)) : List Nat :=
  lists.flatMap fun l => (l.head?.map fun t => t.map (·.hierarchy)).getD []

/-- Without a result limit, a cross join delivers what its native site returns; in memory it
evaluates its operands in order and delivers their product, checking for cancellation at each
tuple unless handed over as a sequence. In non-empty mode, asked for by the context or forced, it
keeps the tuples of the product whose cell is not empty, each read with the tuple placed on the
context and the slicer dropped from the hierarchies the product varies. -/
theorem evalSet_crossJoin (env : Env) (hlimit : env.config.resultLimit = 0) (fuel : Nat)
    (args : List SetArg) (site : NativeSite) (force : Bool) (style : ResultStyle) :
    (env.evalSet (fuel + 1) (.crossJoin args site force) style : m TupleSet) = (do
      let nonEmpty := force || (← EvalMonad.context).nonEmpty
      let delegated ← env.dispatch fuel site nonEmpty
      delegated.elim
        (do
          let lists ← args.mapM fun a => (·.toList) <$> env.evalArg fuel a
          if nonEmpty then
            within (.widen (variedHierarchies lists)) do
              let keep ← (cartesian lists).mapM fun t => do
                liftEval env.check
                (!·) <$> within (.tuple t) (env.isEmptyCell fuel)
              pure (TupleSet.deliver (selected (cartesian lists) keep) style)
          else if style == .iterable then pure (.iterable (.product lists))
          else (fun ts => TupleSet.deliver ts style) <$> (cartesian lists).mapM fun t => do
            liftEval env.check
            pure t)
        fun ts => pure (TupleSet.deliver ts style)) := by
  rw [Env.evalSet.eq_def]
  dsimp only
  refine congrArg (_ >>= ·) (funext fun ctx => congrArg (_ >>= ·) (funext fun delegated => ?_))
  cases delegated
  case some ts => rfl
  case none =>
    dsimp only [Option.elim]
    rw [forIn_push (fun a => (·.toList) <$> env.evalArg fuel a) _
      (fun a r => by rw [bind_map_left]), bind_map_left]
    refine congrArg (_ >>= ·) (funext fun lists => ?_)
    simp only [List.toList_toArray, Array.empty_append]
    cases force || ctx.nonEmpty
    . -- the whole product, never too large without a limit
      simp only [Bool.not_false, if_true, Bool.false_eq_true, if_false,
        EngineConfig.exceedsResultLimit_unlimited hlimit]
      split
      . rfl
      . rw [TupleStream.forIn_eq_forIn_toList, forIn_push (fun t => do
          liftEval env.check
          pure t) _ (fun t r => by simp only [bind_assoc, pure_bind]), bind_map_left,
          map_eq_pure_bind]
        simp only [bind_pure_comp, List.append_toArray, List.nil_append]
        rfl
    . -- the product's tuples whose cell is not empty
      simp only [Bool.not_true, Bool.false_eq_true, if_false, if_true]
      rw [hlimit, keepLimited_unlimited, bind_map_left]
      congr 1
      -- the hierarchies of each operand's first tuple
      unfold variedHierarchies
      congr 2
      funext l
      cases l <;> rfl

end Operators

end Env

/-- The set operators evaluated in memory follow their reference semantics, from every state of
the engine's evaluator. A set literal concatenates, in order, what its items give: nothing for a
null, a member or a tuple for one, every tuple of a spliced set, repeats kept. `Filter` keeps, in
order, the tuples of its set at which its condition is true; a null or false condition drops the
tuple. `Head` hands over the first `max(n, 0)` tuples of its set, one without a count. A product
of operands holds the concatenations of one tuple of each. Without a result limit, `Generate`
concatenates the sets generated at the tuples of its source, in order, keeping the first
occurrence of each tuple unless `ALL` is given; a cross join is the product of its operands, and
in non-empty mode (forced by `NonEmptyCrossJoin`) only the tuples whose cell is not empty, read
with the tuple placed and the slicer dropped from the hierarchies the product varies. -/
theorem set_operators_follow_reference :
    (∀ (env : Env) (fuel : Nat) (items : List SetItem) (arity : Nat) (style : ResultStyle),
      (env.evalSet (fuel + 1) (.enumerate items arity) style : EvalOn TupleSet) =
        (fun tss => TupleSet.deliver tss.flatten style) <$> items.mapM (env.itemTuples fuel)) ∧
    (∀ (env : Env) (fuel : Nat) (set : SetArg) (condition : Node) (site : NativeSite)
        (style : ResultStyle),
      (env.evalSet (fuel + 1) (.filter set condition site) style : EvalOn TupleSet) =
        env.dispatch fuel site false >>= fun delegated => delegated.elim
          (do
            let s ← env.evalArg fuel set
            let keep ← s.toList.mapM fun t => do
              liftEval env.check
              within (.tuple t)
                (env.eval fuel condition >>= fun v => (·.getD false) <$> liftExcept v.toBoolean)
            pure (TupleSet.deliver (selected s.toList keep) style))
          fun ts => pure (TupleSet.deliver ts style)) ∧
    (∀ (env : Env) (fuel : Nat) (set : SetArg) (count : Option Node) (style : ResultStyle),
      TupleSet.toList <$> (env.evalSet (fuel + 1) (.head set count) style : EvalOn TupleSet) = (do
        let k ← count.elim (pure 1) fun c =>
          env.eval fuel c >>= fun v => (fun n => (n.getD 0).toNat) <$> liftExcept v.toInteger
        let s ← env.evalArg fuel set
        pure (s.toList.take k))) ∧
    (∀ lists : List (List Tuple), lists ≠ [] → ∀ t : Tuple,
      t ∈ cartesian lists ↔
        ∃ parts : List Tuple, List.Forall₂ (· ∈ ·) parts lists ∧ t = parts.flatten) ∧
    ∀ env : Env, env.config.resultLimit = 0 →
      (∀ (fuel : Nat) (source each : SetArg) (all : Bool) (style : ResultStyle),
        (env.evalSet (fuel + 1) (.generate source each all) style : EvalOn TupleSet) = (do
          let s ← env.evalArg fuel source
          let blocks ← s.toList.mapM fun t => do
            liftEval env.check
            (·.toList) <$> within (.tuple t) (env.evalArg fuel each)
          pure (TupleSet.deliver (if all then blocks.flatten else blocks.flatten.eraseDups) style))) ∧
      ∀ (fuel : Nat) (args : List SetArg) (site : NativeSite) (force : Bool) (style : ResultStyle),
        (env.evalSet (fuel + 1) (.crossJoin args site force) style : EvalOn TupleSet) = (do
          let nonEmpty := force || (← EvalMonad.context).nonEmpty
          let delegated ← env.dispatch fuel site nonEmpty
          delegated.elim
            (do
              let lists ← args.mapM fun a => (·.toList) <$> env.evalArg fuel a
              if nonEmpty then
                within (.widen (Env.variedHierarchies lists)) do
                  let keep ← (cartesian lists).mapM fun t => do
                    liftEval env.check
                    (!·) <$> within (.tuple t) (env.isEmptyCell fuel)
                  pure (TupleSet.deliver (selected (cartesian lists) keep) style)
              else if style == .iterable then pure (.iterable (.product lists))
              else (fun ts => TupleSet.deliver ts style) <$> (cartesian lists).mapM fun t => do
                liftEval env.check
                pure t)
            fun ts => pure (TupleSet.deliver ts style)) :=
  ⟨Env.evalSet_enumerate, Env.evalSet_filter, Env.evalSet_head, fun _ h => mem_cartesian h,
    fun env hlimit => ⟨Env.evalSet_generate env hlimit, Env.evalSet_crossJoin env hlimit⟩⟩

/-- The default configuration sets no result limit, and one operand is a product of one list. -/
theorem set_operators_follow_reference_default :
    let env : Env := ⟨⟨[], [], [], [], [], true⟩, FunctionTable.builtins, {}, false, false⟩
    ([[[]]] : List (List Tuple)) ≠ [] ∧ env.config.resultLimit = 0 ∧
      ([] ∈ cartesian [[[]]] ↔
        ∃ parts : List Tuple, List.Forall₂ (· ∈ ·) parts [[[]]] ∧ [] = parts.flatten) ∧
      ∀ (fuel : Nat) (source each : SetArg) (all : Bool) (style : ResultStyle),
        (env.evalSet (fuel + 1) (.generate source each all) style : EvalOn TupleSet) = (do
          let s ← env.evalArg fuel source
          let blocks ← s.toList.mapM fun t => do
            liftEval env.check
            (·.toList) <$> within (.tuple t) (env.evalArg fuel each)
          pure (TupleSet.deliver (if all then blocks.flatten else blocks.flatten.eraseDups) style)) := by
  intro env
  have hne : ([[[]]] : List (List Tuple)) ≠ [] := List.cons_ne_nil _ _
  have hlimit : env.config.resultLimit = 0 := rfl
  exact ⟨hne, hlimit, set_operators_follow_reference.2.2.2.1 _ hne [],
    (set_operators_follow_reference.2.2.2.2 env hlimit).1⟩

end OlapCalc
