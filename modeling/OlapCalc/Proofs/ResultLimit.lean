import Mathlib
import OlapCalc.Proofs.Traversal
import OlapCalc.Proofs.CutShort

/-!
A result limit cuts an operator short; it never shortens its result.

The operators that stream their results through a limiter (the rows of a native request and the
calculated-member combinations merged into them, a non-empty cross join, Generate) run under a
limit of `K` in step with their runs without one, and so give their complete result when it has
at most `K` tuples and fail with the limit otherwise.

A merge that keeps empty tuples claims room for all its combinations before making any: the
number of combinations with a calculated member is the product of the operands' member counts
less the product of their stored member counts, as long as stored and calculated members are told
apart and the product fits a machine-sized count (`SourcesSplit`).
-/

namespace OlapCalc


section Combinations

theorem length_cartesian : ∀ lists : List (List Tuple), lists ≠ [] →
    (cartesian lists).length = (lists.map List.length).prod
  | [], h => absurd rfl h
  | [l], _ => by simp [cartesian]
  | l :: r :: rest, _ => by
    rw [cartesian_cons l (List.cons_ne_nil r rest), List.length_flatMap]
    simp only [List.length_map, List.map_const', List.sum_replicate_nat, List.map_cons,
      List.prod_cons, length_cartesian (r :: rest) (List.cons_ne_nil r rest)]

theorem filter_stored_prefix_stored {m : Member} (ts : List Tuple) (h : m.isCalculated = false) :
    (ts.map ([m] ++ ·)).filter (fun t => !t.any (·.isCalculated)) =
      (ts.filter fun t => !t.any (·.isCalculated)).map ([m] ++ ·) := by
  simp [List.filter_map, Function.comp_def, h]

theorem filter_stored_prefix_calculated {m : Member} (ts : List Tuple) (h : m.isCalculated = true) :
    (ts.map ([m] ++ ·)).filter (fun t => !t.any (·.isCalculated)) = [] := by
  simp [List.filter_map, Function.comp_def, h]

theorem filter_stored_cartesian : ∀ blocks : List (List Member × List Member),
    (∀ p ∈ blocks, (∀ m ∈ p.1, m.isCalculated = false) ∧ ∀ m ∈ p.2, m.isCalculated = true) →
    (cartesian (blocks.map fun p => (p.1 ++ p.2).map ([·]))).filter
        (fun t => !t.any (·.isCalculated)) =
      cartesian (blocks.map fun p => p.1.map ([·]))
  | [], _ => rfl
  | [p], h => by
    obtain ⟨hs, hc⟩ := h p (List.mem_singleton_self p)
    simp only [List.map_cons, List.map_nil, cartesian, List.map_append, List.filter_append,
      List.filter_map]
    rw [List.filter_eq_self.mpr (by simpa using hs), List.filter_eq_nil_iff.mpr (by simpa using hc)]
    simp
  | p :: q :: rest, h => by
    obtain ⟨hs, hc⟩ := h p List.mem_cons_self
    have ih := filter_stored_cartesian (q :: rest) fun p' hp' => h p' (List.mem_cons_of_mem _ hp')
    simp only [List.map_cons] at ih ⊢
    rw [cartesian_cons ((p.1 ++ p.2).map ([·])) (List.cons_ne_nil _ _),
      cartesian_cons (p.1.map ([·])) (List.cons_ne_nil _ _), ← ih, List.filter_flatMap,
      List.flatMap_map, List.flatMap_map, List.flatMap_append]
    -- a stored first member keeps what the rest keeps; a calculated one leaves nothing
    rw [List.flatMap_congr fun m hm => filter_stored_prefix_stored _ (hs m hm),
      List.flatMap_congr fun m hm => filter_stored_prefix_calculated _ (hc m hm)]
    simp

theorem calculated_combinations (blocks : List (List Member × List Member))
    (hsplit : ∀ p ∈ blocks, (∀ m ∈ p.1, m.isCalculated = false) ∧ ∀ m ∈ p.2, m.isCalculated = true) :
    ((cartesian (blocks.map fun p => (p.1 ++ p.2).map ([·]))).filter
        (·.any (·.isCalculated))).length =
      (blocks.map fun p => p.1.length + p.2.length).prod - (blocks.map fun p => p.1.length).prod := by
  cases blocks with
  | nil => rfl
  | cons p rest =>
    have htotal := @List.length_eq_length_filter_add _
      (cartesian ((p :: rest).map fun p => (p.1 ++ p.2).map ([·]))) (·.any (·.isCalculated))
    rw [filter_stored_cartesian _ hsplit, length_cartesian _ (by simp),
      length_cartesian _ (by simp)] at htotal
    simp only [List.map_map, Function.comp_def, List.length_map, List.length_append] at htotal
    omega

end Combinations

theorem saturatingMul_min (a b : Nat) :
    saturatingMul (min a countLimit) b = min (a * b) countLimit := by
  unfold saturatingMul
  rcases Nat.eq_zero_or_pos b with rfl | hb
  . simp
  . rcases Nat.le_total a countLimit with h | h
    . rw [Nat.min_eq_left h]
    . rw [Nat.min_eq_right h, Nat.min_eq_right (Nat.le_mul_of_pos_right _ hb),
        Nat.min_eq_right (Nat.le_trans h (Nat.le_mul_of_pos_right _ hb))]

namespace ArgSource

/-- The stored members of an operand, as its member source gives them. -/
def storedMembers (cube : Cube) (s : ArgSource) : List Member :=
  (s.stored.bind fun src => (cube.sourceMembers src).toOption).getD []

theorem mem_storedMembers {cube : Cube} {s : ArgSource} {m : Member}
    (h : m ∈ s.storedMembers cube) :
    ∃ src ms, s.stored = some src ∧ cube.sourceMembers src = .ok ms ∧ m ∈ ms := by
  unfold storedMembers at h
  cases hs : s.stored with
  | none => simp [hs] at h
  | some src =>
    cases hms : cube.sourceMembers src with
    | error e => simp [hs, hms, Except.toOption] at h
    | ok ms => exact ⟨src, ms, rfl, hms, by simpa [hs, hms, Except.toOption] using h⟩

/-- The single-member tuples of an operand: its stored members, then its calculated ones. -/
def memberTuples (cube : Cube) (s : ArgSource) : List Tuple :=
  (s.storedMembers cube ++ s.calculated).map ([·])

end ArgSource

/-- Operands whose stored members are not calculated, whose calculated members are, and whose
product of member counts fits a machine-sized count. -/
structure SourcesSplit (cube : Cube) (sources : List ArgSource) : Prop where
  stored : ∀ s ∈ sources, ∀ src ms, s.stored = some src → cube.sourceMembers src = .ok ms →
    ∀ m ∈ ms, m.isCalculated = false
  calculated : ∀ s ∈ sources, ∀ m ∈ s.calculated, m.isCalculated = true
  fits : (sources.map fun s => (s.memberTuples cube).length).prod ≤ countLimit

/-- What a merge has gathered from the operands `done`: their member lists, and the products of
their stored and of all their member counts, capped at a machine-sized count. -/
def Gathered (cube : Cube) (done : List ArgSource) (st : Array (List Tuple) × Nat × Nat) : Prop :=
  st.1.toList = done.map (·.memberTuples cube) ∧
    st.2.1 = min ((done.map fun s => (s.storedMembers cube).length).prod) countLimit ∧
    st.2.2 = min ((done.map fun s => (s.memberTuples cube).length).prod) countLimit

namespace Gathered

variable {cube : Cube}

theorem nil : Gathered cube [] (#[], 1, 1) := ⟨rfl, by simp [countLimit], by simp [countLimit]⟩

theorem step {done : List ArgSource} {st : Array (List Tuple) × Nat × Nat} (h : Gathered cube done st)
    {s : ArgSource} {members : List Member} (hm : s.storedMembers cube = members) :
    Gathered cube (done ++ [s])
      (st.1.push ((members ++ s.calculated).map ([·])), saturatingMul st.2.1 members.length,
        saturatingMul st.2.2 (members ++ s.calculated).length) := by
  obtain ⟨hlists, hstored, hfull⟩ := h
  subst hm
  refine ⟨?_, ?_, ?_⟩
  . simp [hlists, ArgSource.memberTuples]
  . rw [hstored, saturatingMul_min]
    simp
  . rw [hfull, saturatingMul_min]
    simp [ArgSource.memberTuples]

theorem room_eq {sources : List ArgSource} {st : Array (List Tuple) × Nat × Nat}
    (h : Gathered cube sources st) (hsplit : SourcesSplit cube sources) :
    st.2.2 - st.2.1 = ((cartesian st.1.toList).filter (·.any (·.isCalculated))).length := by
  obtain ⟨hlists, hstored, hfull⟩ := h
  have hblocks : ∀ p ∈ sources.map (fun s => (s.storedMembers cube, s.calculated)),
      (∀ m ∈ p.1, m.isCalculated = false) ∧ ∀ m ∈ p.2, m.isCalculated = true := by
    simp only [List.mem_map]
    rintro _ ⟨s, hs, rfl⟩
    refine ⟨fun m hm => ?_, hsplit.calculated s hs⟩
    obtain ⟨src, ms, hsrc, hms, hm⟩ := ArgSource.mem_storedMembers hm
    exact hsplit.stored s hs src ms hsrc hms m hm
  have hcount := calculated_combinations _ hblocks
  have hfits := hsplit.fits
  simp only [List.map_map, Function.comp_def] at hcount
  simp only [ArgSource.memberTuples, List.length_map, List.length_append] at hlists hfull hfits
  rw [hlists, hcount, hstored, hfull, Nat.min_eq_left hfits]
  omega

end Gathered


open EvalAt in
theorem Gathered.forIn_quiet {cube : Cube}
    {f : ArgSource → Array (List Tuple) × Nat × Nat →
      EvalAt (ForInStep (Array (List Tuple) × Nat × Nat))}
    (hf : ∀ s st, f s st =
      (s.stored.elim (Pure.pure []) fun src => liftExcept (cube.sourceMembers src)) >>= fun ms =>
        Pure.pure (ForInStep.yield (st.1.push ((ms ++ s.calculated).map ([·])),
          saturatingMul st.2.1 ms.length, saturatingMul st.2.2 (ms ++ s.calculated).length)))
    (sources : List ArgSource) : Quiet (Gathered cube sources) (forIn sources (#[], 1, 1) f) := by
  have h : Quiet (Gathered cube ([] ++ sources)) (forIn sources (#[], 1, 1) f) :=
    Quiet.forIn_prefix (fun done s st (h : Gathered cube done st) => ?_) sources [] _ Gathered.nil
  . simpa using h
  rw [hf]
  cases hs : s.stored with
  | none =>
    simp only [Option.elim, pure_bind]
    exact Quiet.pure ⟨_, rfl, h.step (by simp [ArgSource.storedMembers, hs])⟩
  | some src =>
    exact Quiet.bind (Quiet.liftExcept fun ms (hms : cube.sourceMembers src = .ok ms) => hms)
      fun ms hms => Quiet.pure ⟨_, rfl,
        h.step (by simp [ArgSource.storedMembers, hs, hms, Except.toOption])⟩

namespace Env

open EvalAt

variable (env : Env) {K : Nat}

theorem keepLimited_cutShort (hK : 0 < K) {lK l0 : Limiter} (hcap : Limiter.Capped K lK l0)
    (tuples : TupleStream) (drop : Tuple → EvalAt Bool) :
    CutShort K (Limiter.Capped K) (Limiter.Over K) (env.keepLimited lK tuples drop)
      (env.keepLimited l0 tuples drop) := by
  simp only [keepLimited, TupleStream.forIn_eq_forIn_toList, bind_pure]
  refine CutShort.forIn (fun t aK a0 h => ?_) (fun t a h => ?_) _ _ _ hcap
  . refine CutShort.bind_same fun _ => CutShort.bind_same fun kept => ?_
    cases kept
    . exact CutShort.bind (CutShort.push hK h t) (fun _ _ h' => CutShort.pure ⟨_, _, rfl, rfl, h'⟩)
        fun _ h' => Yields.pure h'
    . exact CutShort.pure ⟨_, _, rfl, rfl, h⟩
  . refine Yields.bind Yields.trivial fun _ _ => Yields.bind Yields.trivial fun kept _ => ?_
    cases kept
    . exact Yields.bind (Yields.push h t) fun _ h' => Yields.pure h'
    . exact Yields.pure h

theorem generateItem_over {K : Nat} (all : Bool) (item : Tuple) (b : Limiter × List Tuple)
    (h : Limiter.Over K b.1) :
    Yields (fun s : ForInStep (Limiter × List Tuple) => Limiter.Over K s.value.1)
      (if all = true then liftExcept (b.1.push item) >>= fun l => Pure.pure (ForInStep.yield (l, b.2))
      else if (!b.2.contains item) = true then
        liftExcept (b.1.push item) >>= fun l => Pure.pure (ForInStep.yield (l, item :: b.2))
      else Pure.pure (ForInStep.yield (b.1, b.2)) : EvalAt _) := by
  have hpush : ∀ seen, Yields (fun s : ForInStep (Limiter × List Tuple) => Limiter.Over K s.value.1)
      (liftExcept (b.1.push item) >>= fun l => Pure.pure (ForInStep.yield (l, seen))) :=
    fun _ => Yields.bind (Yields.push h item) fun _ h' => Yields.pure h'
  cases all
  . simp only [Bool.false_eq_true, if_false]
    split
    . exact hpush _
    . exact Yields.pure h
  . exact hpush _

theorem generateLimited_cutShort (hK : 0 < K) {lK l0 : Limiter} (hcap : Limiter.Capped K lK l0)
    (source : TupleSet) (each : Tuple → EvalAt TupleSet) (all : Bool) :
    CutShort K (Limiter.Capped K) (Limiter.Over K) (env.generateLimited lK source each all)
      (env.generateLimited l0 source each all) := by
  simp only [generateLimited, TupleStream.forIn_eq_forIn_toList]
  refine CutShort.bind
    (CutShort.forIn (fun t aK a0 (h : Limiter.Capped K aK.1 a0.1 ∧ aK.2 = a0.2) => ?_)
      (fun t a (h : Limiter.Over K a.1) => ?_) _ _ _ ⟨hcap, rfl⟩)
    (fun _ _ h => CutShort.pure h.1) fun _ h => Yields.pure h
  . -- one source tuple: the set it generates is fed to both limiters
    refine CutShort.bind_same fun _ => CutShort.bind_same fun generated => ?_
    refine CutShort.bind (CutShort.forIn (fun item bK b0 h' => ?_) (fun item b h' => ?_) _ _ _ h)
      (fun _ _ h' => CutShort.pure ⟨_, _, rfl, rfl, h'⟩) fun _ h' => Yields.pure h'
    . obtain ⟨hcap', hseen⟩ := h'
      dsimp only at hcap' hseen
      have hpush : ∀ seenK seen0, seenK = seen0 →
          CutShort K (GoOn fun aK a0 : Limiter × List Tuple => Limiter.Capped K aK.1 a0.1 ∧ aK.2 = a0.2)
            (fun s : ForInStep (Limiter × List Tuple) => Limiter.Over K s.value.1)
            (liftExcept (bK.1.push item) >>= fun l => Pure.pure (ForInStep.yield (l, seenK)))
            (liftExcept (b0.1.push item) >>= fun l => Pure.pure (ForInStep.yield (l, seen0))) :=
        fun _ _ hs => CutShort.bind (CutShort.push hK hcap' item)
          (fun _ _ h'' => CutShort.pure ⟨_, _, rfl, rfl, h'', hs⟩) fun _ h'' => Yields.pure h''
      cases all
      . simp only [Bool.false_eq_true, if_false]
        rw [hseen]
        by_cases hnew : (!b0.snd.contains item) = true
        . rw [if_pos hnew, if_pos hnew]
          exact hpush _ _ rfl
        . rw [if_neg hnew, if_neg hnew]
          exact CutShort.pure ⟨_, _, rfl, rfl, hcap', rfl⟩
      . exact hpush _ _ hseen
    . exact generateItem_over all item b h'
  . refine Yields.bind Yields.trivial fun _ _ => Yields.bind Yields.trivial fun generated _ => ?_
    refine Yields.bind (Yields.forIn (fun item b (h' : Limiter.Over K b.1) => ?_) _ _ h)
      fun _ h' => Yields.pure h'
    exact generateItem_over all item b h'

theorem mergeAll_tuples (ts : List Tuple) (l : Limiter) :
    Yields (fun l' : Limiter => l'.tuples.toList =
        l.tuples.toList ++ ts.filter (·.any (·.isCalculated)))
      (forIn ts l fun t a =>
        if (!t.any (·.isCalculated)) = true then pure (ForInStep.yield a)
        else do
          liftEval env.check
          let l' ← liftExcept (a.push t)
          pure (ForInStep.yield l') : EvalAt Limiter) := by
  refine (Yields.forIn_prefix (fun (done : List Tuple) t (a : Limiter)
    (h : a.tuples.toList = l.tuples.toList ++ done.filter (·.any (·.isCalculated))) => ?_)
    ts [] l (by simp)).imp fun a ha => by simpa using ha
  split
  . next hstored =>
    refine Yields.pure ⟨a, rfl, ?_⟩
    simp only [Bool.not_eq_true'] at hstored
    simpa [List.filter_append, hstored] using h
  . next hcalc =>
    refine Yields.bind Yields.trivial fun _ _ =>
      Yields.bind (Yields.liftExcept fun l' (hl' : a.push t = .ok l') => hl') fun l' hl' =>
        Yields.pure ⟨l', rfl, ?_⟩
    simp only [Bool.not_eq_true, Bool.not_eq_false'] at hcalc
    simp only [List.filter_append, List.filter_singleton, hcalc, cond_true, Limiter.push_tuples hl',
      Array.toList_push, h, List.append_assoc]

theorem mergeAll_size (ts : List Tuple) (l : Limiter) :
    Yields (fun l' : Limiter => l'.tuples.size =
        l.tuples.size + (ts.filter (·.any (·.isCalculated))).length)
      (forIn ts l fun t a =>
        if (!t.any (·.isCalculated)) = true then pure (ForInStep.yield a)
        else do
          liftEval env.check
          let l' ← liftExcept (a.push t)
          pure (ForInStep.yield l') : EvalAt Limiter) :=
  (env.mergeAll_tuples ts l).imp fun l' h => by
    rw [← Array.length_toList, h, List.length_append, Array.length_toList]

theorem mergeCalculated_cutShort (hK : 0 < K) {lK l0 : Limiter} (hcap : Limiter.Capped K lK l0)
    (fuel : Nat) {sources : List ArgSource} (hsplit : SourcesSplit env.cube sources)
    (nonEmpty : Bool) :
    CutShort K (Limiter.Capped K) (Limiter.Over K) (env.mergeCalculated fuel sources nonEmpty lK)
      (env.mergeCalculated fuel sources nonEmpty l0) := by
  cases fuel with
  | zero => exact CutShort.throw _
  | succ fuel =>
    simp only [mergeCalculated, TupleStream.forIn_eq_forIn_toList]
    refine CutShort.bind_yields (Gathered.forIn_quiet (fun s _ => by cases s.stored <;> rfl)
      sources).yields fun st hst => ?_
    refine CutShort.bind (CutShort.ensureRoom hK hcap 0) (fun _ _ _ => ?_)
      fun _ h => absurd h (by have := hcap.fits; omega)
    cases nonEmpty
    . simp only [Bool.not_false, if_true, Bool.false_eq_true, if_false, bind_pure]
      refine CutShort.bind (CutShort.ensureRoom hK hcap _)
        (fun _ _ _ => CutShort.forIn (fun t aK a0 h => ?_) (fun t a h => ?_) _ _ _ hcap)
        fun _ hover => ?_
      . by_cases hstored : (!t.any (·.isCalculated)) = true
        . rw [if_pos hstored, if_pos hstored]
          exact CutShort.pure ⟨_, _, rfl, rfl, h⟩
        . rw [if_neg hstored, if_neg hstored]
          exact CutShort.bind_same fun _ => CutShort.bind (CutShort.push hK h t)
            (fun _ _ h' => CutShort.pure ⟨_, _, rfl, rfl, h'⟩) fun _ h' => Yields.pure h'
      . split
        . exact Yields.pure h
        . exact Yields.bind Yields.trivial fun _ _ =>
            Yields.bind (Yields.push h t) fun _ h' => Yields.pure h'
      . -- the room claimed was short: without the limit every such combination is appended
        rw [hst.room_eq hsplit] at hover
        refine (env.mergeAll_size _ l0).imp fun a ha => ?_
        simp only [Limiter.Over, ha, TupleStream.toList]
        omega
    . simp only [Bool.not_true, Bool.false_eq_true, if_false, if_true, bind_pure]
      refine CutShort.forIn (fun t aK a0 h => ?_) (fun t a h => ?_) _ _ _ hcap
      . by_cases hstored : (!t.any (·.isCalculated)) = true
        . rw [if_pos hstored, if_pos hstored]
          exact CutShort.pure ⟨_, _, rfl, rfl, h⟩
        . rw [if_neg hstored, if_neg hstored]
          refine CutShort.bind_same fun _ => CutShort.bind_same fun empty => ?_
          cases empty
          . exact CutShort.bind (CutShort.push hK h t)
              (fun _ _ h' => CutShort.pure ⟨_, _, rfl, rfl, h'⟩) fun _ h' => Yields.pure h'
          . exact CutShort.pure ⟨_, _, rfl, rfl, h⟩
      . split
        . exact Yields.pure h
        . refine Yields.bind Yields.trivial fun _ _ => Yields.bind Yields.trivial fun empty _ => ?_
          cases empty
          . exact Yields.bind (Yields.push h t) fun _ h' => Yields.pure h'
          . exact Yields.pure h

theorem mergeCalculated_grows (fuel : Nat) (sources : List ArgSource) (nonEmpty : Bool)
    (l : Limiter) :
    Yields (fun l' => l.tuples.size ≤ l'.tuples.size) (env.mergeCalculated fuel sources nonEmpty l) := by
  cases fuel with
  | zero => exact Yields.throw _
  | succ fuel =>
    simp only [mergeCalculated, TupleStream.forIn_eq_forIn_toList]
    refine Yields.bind Yields.trivial fun _ _ => Yields.bind Yields.trivial fun _ _ => ?_
    cases nonEmpty
    . simp only [Bool.not_false, if_true, Bool.false_eq_true, if_false, bind_pure]
      exact Yields.bind Yields.trivial fun _ _ =>
        (env.mergeAll_size _ l).imp fun _ h => by omega
    . simp only [Bool.not_true, Bool.false_eq_true, if_false, if_true, bind_pure]
      refine Yields.forIn (fun t a (h : l.tuples.size ≤ a.tuples.size) => ?_) _ _ (Nat.le_refl _)
      split
      . exact Yields.pure h
      . refine Yields.bind Yields.trivial fun _ _ => Yields.bind Yields.trivial fun empty _ => ?_
        cases empty
        . exact Yields.bind (Yields.liftExcept fun l' (hl' : a.push t = .ok l') => hl')
            fun l' hl' => Yields.pure (by simp only [ForInStep.value, Limiter.push_size hl']; omega)
        . exact Yields.pure h

theorem mergeCalculated_refused_up_front (hK : 0 < K) {lK l0 : Limiter}
    (hcap : Limiter.Capped K lK l0) (fuel : Nat) {sources : List ArgSource}
    (hsplit : SourcesSplit env.cube sources) (ctx : Context) (c : Counters) {l : Limiter}
    {c' : Counters}
    (h0 : ((env.mergeCalculated (fuel + 1) sources false l0 : EvalAt Limiter).run ctx).run.run c =
      (.ok l, c'))
    (hover : K < l.tuples.size) :
    ((env.mergeCalculated (fuel + 1) sources false lK : EvalAt Limiter).run ctx).run.run c =
      (.error (.resourceLimit K), c) := by
  simp only [mergeCalculated, TupleStream.forIn_eq_forIn_toList, Bool.not_false, if_true,
    Bool.false_eq_true, if_false, bind_pure] at h0 ⊢
  refine Quiet.run_bind_eq (Gathered.forIn_quiet (fun s _ => by cases s.stored <;> rfl) sources)
    (fun st hst hrun => ?_) fun e herr => ?_
  . rw [EvalAt.run_bind, EvalOn.run_bind, hrun] at h0
    simp only [Limiter.ensureRoom_unlimited hcap.unlimited, liftExcept_ok, pure_bind] at h0
    -- without the limit the merge appended every combination with a calculated member
    have hsize := env.mergeAll_size _ l0 ctx c l (by rw [h0])
    rw [hsize, TupleStream.toList, ← hst.room_eq hsplit] at hover
    rw [hcap.ensureRoom_fits (by simpa using hcap.fits : l0.tuples.size + 0 ≤ K),
      hcap.ensureRoom_over hK hover]
    rfl
  . rw [EvalAt.run_bind, EvalOn.run_bind, herr] at h0
    cases h0

theorem nativeRows_cutShort (hK : 0 < K) (fuel : Nat) (rows : List Tuple)
    {sources : List ArgSource} (hsplit : SourcesSplit env.cube sources) (nonEmpty : Bool) :
    CutShort K (Limiter.Capped K) (Limiter.Over K)
      (env.keepLimited ⟨K, #[]⟩ (.list rows) (fun _ => pure false) >>=
        env.mergeCalculated fuel sources nonEmpty)
      (env.keepLimited ⟨0, #[]⟩ (.list rows) (fun _ => pure false) >>=
        env.mergeCalculated fuel sources nonEmpty) :=
  CutShort.bind (env.keepLimited_cutShort hK (Limiter.Capped.empty K) _ _)
    (fun _ _ h => env.mergeCalculated_cutShort hK h fuel hsplit nonEmpty)
    fun b hb => (env.mergeCalculated_grows fuel sources nonEmpty b).imp fun _ h => by
      simp only [Limiter.Over] at hb ⊢
      omega

end Env

namespace EngineConfig

theorem exceedsResultLimit_reportedSize {config : EngineConfig} {K : Nat} (hlimit : config.resultLimit = K)
    (hK : 0 < K) {product : TupleStream} (hfits : product.size ≤ countLimit) :
    config.exceedsResultLimit product.reportedSize = true ↔ K < product.size := by
  simp [exceedsResultLimit, TupleStream.reportedSize, hlimit, Nat.pos_iff_ne_zero.mp hK,
    Nat.min_eq_left hfits]

theorem exceedsResultLimit_unlimited {config : EngineConfig} (hlimit : config.resultLimit = 0)
    (n : Nat) : config.exceedsResultLimit n = false := by
  simp [exceedsResultLimit, hlimit]

end EngineConfig

open EvalAt in
/-- A result limit of `K ≥ 1` cuts an operator short and never shortens its result. The tuples a
non-empty cross join keeps, the rows of a native request with the calculated-member combinations
merged into them, and the tuples Generate produces are the operator's complete result (what it
gives with no limit) when that has at most `K` tuples, and otherwise a failure with the limit,
never a part of the result; the rows alone may fit and only the merged combinations go over,
which a merge keeping empty tuples finds before a single cancellation check. A cross join keeping
empty tuples is refused exactly when its product has more than `K` tuples. With no limit, no
tuple is refused, no room is short and no product is too large. -/
theorem result_limit_cuts_short (env : Env) :
    (∀ K, 0 < K →
      (∀ (tuples : TupleStream) (drop : Tuple → EvalAt Bool),
        LimitedBy K (env.keepLimited ⟨K, #[]⟩ tuples drop) (env.keepLimited ⟨0, #[]⟩ tuples drop)) ∧
      (∀ fuel (rows : List Tuple) (sources : List ArgSource) nonEmpty,
        SourcesSplit env.cube sources →
        LimitedBy K
          (env.keepLimited ⟨K, #[]⟩ (.list rows) (fun _ => pure false) >>=
            env.mergeCalculated fuel sources nonEmpty)
          (env.keepLimited ⟨0, #[]⟩ (.list rows) (fun _ => pure false) >>=
            env.mergeCalculated fuel sources nonEmpty)) ∧
      (∀ fuel (sources : List ArgSource) (rows : Array Tuple) ctx c (l : Limiter) c',
        SourcesSplit env.cube sources → rows.size ≤ K →
        ((env.mergeCalculated (fuel + 1) sources false ⟨0, rows⟩ : EvalAt Limiter).run ctx).run.run c =
          (.ok l, c') →
        K < l.tuples.size →
        ((env.mergeCalculated (fuel + 1) sources false ⟨K, rows⟩ : EvalAt Limiter).run ctx).run.run c =
          (.error (.resourceLimit K), c)) ∧
      (∀ (source : TupleSet) (each : Tuple → EvalAt TupleSet) all,
        LimitedBy K (env.generateLimited ⟨K, #[]⟩ source each all)
          (env.generateLimited ⟨0, #[]⟩ source each all)) ∧
      ∀ (config : EngineConfig) (product : TupleStream), config.resultLimit = K →
        product.size ≤ countLimit →
        (config.exceedsResultLimit product.reportedSize = true ↔ K < product.size)) ∧
    (∀ (l : Limiter) t n, l.limit = 0 →
      l.push t = .ok { l with tuples := l.tuples.push t } ∧ l.ensureRoom n = .ok ()) ∧
    ∀ (config : EngineConfig) n, config.resultLimit = 0 → config.exceedsResultLimit n = false :=
  ⟨fun K hK =>
    ⟨fun tuples drop => (env.keepLimited_cutShort hK (Limiter.Capped.empty K) tuples drop).limitedBy,
      fun fuel rows _ nonEmpty hsplit => (env.nativeRows_cutShort hK fuel rows hsplit nonEmpty).limitedBy,
      fun fuel _ rows ctx c _ _ hsplit hfits h0 hover =>
        env.mergeCalculated_refused_up_front hK
          (⟨rfl, rfl, rfl, hfits⟩ : Limiter.Capped K ⟨K, rows⟩ ⟨0, rows⟩) fuel hsplit ctx c h0 hover,
      fun source each all =>
        (env.generateLimited_cutShort hK (Limiter.Capped.empty K) source each all).limitedBy,
      fun _ _ hlimit hfits => EngineConfig.exceedsResultLimit_reportedSize hlimit hK hfits⟩,
    fun _ t n h => ⟨Limiter.push_unlimited h t, Limiter.ensureRoom_unlimited h n⟩,
    fun _ n h => EngineConfig.exceedsResultLimit_unlimited h n⟩

open EvalAt in
/-- A limit of two on the native rows of one stored member, with a calculated member of the same
hierarchy merged into them. -/
theorem result_limit_cuts_short_merge :
    let ca := Member.mk 1 "[Store].[CA]" "CA" 1 0 none false .regular
    let west := Member.mk 1 "[Store].[West]" "West" 1 4294967295 none false
      (.calculated (.symbol "x") 0)
    let env : Env := ⟨⟨[], [], [], [], [], true⟩, FunctionTable.builtins, {}, false, false⟩
    let sources : List ArgSource := [⟨1, some (.members [ca]), [west]⟩]
    0 < 2 ∧ SourcesSplit env.cube sources ∧
      LimitedBy 2
        (env.keepLimited ⟨2, #[]⟩ (.list [[ca]]) (fun _ => pure false) >>=
          env.mergeCalculated 1 sources false)
        (env.keepLimited ⟨0, #[]⟩ (.list [[ca]]) (fun _ => pure false) >>=
          env.mergeCalculated 1 sources false) := by
  intro ca west env sources
  have hsplit : SourcesSplit env.cube sources := by
    refine ⟨?_, ?_, ?_⟩
    . intro s hs src ms hsrc hms m hm
      simp only [sources, List.mem_singleton] at hs
      subst hs
      cases hsrc
      cases hms
      simp only [List.mem_singleton] at hm
      subst hm
      rfl
    . intro s hs m hm
      simp only [sources, List.mem_singleton] at hs
      subst hs
      simp only [List.mem_singleton] at hm
      subst hm
      rfl
    . simp [sources, ArgSource.memberTuples, ArgSource.storedMembers, Cube.sourceMembers,
        Except.toOption, pure, Except.pure, countLimit]
  exact ⟨by decide, hsplit,
    ((result_limit_cuts_short env).1 2 (by decide)).2.1 1 [[ca]] sources false hsplit⟩

end OlapCalc
