import OlapCalc.Proofs.Conformance
import OlapCalc.Proofs.MemberClosure
import OlapCalc.Proofs.SetOperators

/-!
The members an evaluation meets.

Evaluation places members on the coordinate and hands tuples around, and each of them comes
from somewhere: a member constant of a node, a level or a child list of the cube, the parent
of a member already met, the slicer, or the formula of a calculated member met before. A
universe is a list of members closed under all of these (`Env.Universe`). From a context whose
coordinate and slicer hold members of a universe, a node naming only members of it gives a
value whose members are in it, and a set node tuples of members of it (`Universe.StaysAt`).

The universe is what makes evaluation finite: only the formulas of its calculated members can
be entered, so their sizes are bounded.
-/

namespace OlapCalc

namespace Value

theorem mem_of_asMember {v : Value} {m : Member} (h : v.asMember = .ok m) : m ∈ v.members := by
  unfold asMember at h
  split at h <;> cases h
  exact List.mem_singleton_self m

theorem subset_of_asTuple {v : Value} {t : Tuple} (h : v.asTuple = .ok t) : t ⊆ v.members := by
  unfold asTuple at h
  split at h <;> cases h
  all_goals exact List.Subset.refl _

theorem members_of_conforms_scalar {v : Value} (h : v.Conforms .scalar) : v.members = [] := by
  -- only members, tuples and sets hold members, and none of them is a scalar
  cases v with
  | member _ | tuple _ | set _ => exact h.elim
  | _ => rfl

theorem members_elim {β : Type} {x : Option β} {f : β → Value} {S : List Member}
    (h : ∀ b, x = some b → (f b).members ⊆ S) : (x.elim Value.null f).members ⊆ S := by
  cases x with
  | none => exact List.nil_subset S
  | some b => exact h b rfl

end Value

namespace Node

variable {S : List Member}

theorem membersAll_subset : ∀ {ns : List Node}, Node.membersAll ns ⊆ S ↔ ∀ n ∈ ns, n.members ⊆ S
  | [] => by simp [Node.membersAll]
  | n :: ns => by
    rw [Node.membersAll, List.append_subset, membersAll_subset, List.forall_mem_cons]

theorem argsMembers_subset : ∀ {args : List SetArg},
    Node.argsMembers args ⊆ S ↔ ∀ a ∈ args, Node.argMembers a ⊆ S
  | [] => by simp [Node.argsMembers]
  | a :: args => by
    rw [Node.argsMembers, List.append_subset, argsMembers_subset, List.forall_mem_cons]

theorem itemMembers_subset : ∀ {items : List SetItem},
    Node.itemMembers items ⊆ S ↔ ∀ it ∈ items, Node.itemMembers [it] ⊆ S
  | [] => by simp [Node.itemMembers]
  | it :: items => by
    have ih : Node.itemMembers items ⊆ S ↔ ∀ it ∈ items, Node.itemMembers [it] ⊆ S :=
      itemMembers_subset
    rw [Node.itemMembers_cons, List.append_subset, ih, List.forall_mem_cons]

end Node

/-- The members of the context and of a node, from which evaluation starts. -/
def Context.seed (ctx : Context) (node : Node) : List Member :=
  ctx.coordinate ++ ctx.slicer.flatten ++ node.members

theorem Context.leadingCalculated_mem {ctx : Context} {m : Member} (h : ctx.leadingCalculated = some m) :
    m ∈ ctx.coordinate := by
  unfold Context.leadingCalculated at h
  obtain ⟨⟨m', o⟩, hr, rfl⟩ := Option.map_eq_some_iff.mp h
  -- the fold only ever keeps a member it has been given
  refine List.foldl_invariant (fun best : Option (Member × Int) => ∀ p, best = some p → p.1 ∈ ctx.coordinate)
    (fun best x hx hbest p hp => ?_) (fun p (h : (none : Option (Member × Int)) = some p) => by cases h) _ hr
  -- a step keeps the best so far or takes the member it is given
  split at hp
  . exact hbest p hp
  split at hp
  . cases hp
    exact hx
  split at hp
  . cases hp
    exact hx
  . exact hbest p hp

namespace Env

/-- The node the formula of a calculated member compiles to, when it compiles. -/
def formula? (env : Env) (m : Member) : Option Node :=
  m.formula.bind fun f => (env.functions.compile f.1 .value).toOption

theorem formulaNode_ok {env : Env} {m : Member} {n : Node} {c c' : Counters}
    (h : (env.formulaNode m).run.run c = (.ok n, c')) : env.formula? m = some n := by
  unfold formulaNode at h
  unfold formula?
  cases hf : m.formula with
  | none => rw [hf] at h; cases h
  | some f =>
    obtain ⟨e, o⟩ := f
    rw [hf] at h
    dsimp only at h
    cases hc : env.functions.compile e .value with
    | error e => rw [hc] at h; cases h
    | ok n' =>
      rw [hc] at h
      cases h
      simp [hc, Except.toOption]

/-- A list of members that evaluation cannot leave: it holds the parent of each of its members,
every member of a level and every child the cube lists, and every member the formula of one of
its calculated members names. -/
structure Universe (env : Env) where
  members : List Member
  parent_mem : ∀ m ∈ members, ∀ p, m.parent = some p → p ∈ members
  levelMembers_subset : ∀ l ms, env.cube.levelMembers l = .ok ms → ms ⊆ members
  childrenOf_subset : ∀ m, env.cube.childrenOf m ⊆ members
  formula_subset : ∀ m ∈ members, ∀ n, env.formula? m = some n → n.members ⊆ members

namespace Universe

variable {env : Env} (U : env.Universe)

/-- Tuples of members of the universe. -/
def Tuples (ts : List Tuple) : Prop := ∀ t ∈ ts, t ⊆ U.members

/-- A context whose coordinate and slicer hold members of the universe. -/
structure Covers (ctx : Context) : Prop where
  coordinate : ctx.coordinate ⊆ U.members
  slicer : U.Tuples ctx.slicer

variable {U}

namespace Tuples

theorem nil : U.Tuples [] := fun _ h => absurd h List.not_mem_nil

theorem append {ts us : List Tuple} (hts : U.Tuples ts) (hus : U.Tuples us) : U.Tuples (ts ++ us) := by
  intro t ht
  rcases List.mem_append.mp ht with ht | ht
  . exact hts t ht
  . exact hus t ht

theorem push {arr : Array Tuple} {t : Tuple} (harr : U.Tuples arr.toList) (ht : t ⊆ U.members) :
    U.Tuples (arr.push t).toList :=
  forall_mem_toList_push harr ht

theorem singles {ms : List Member} (h : ms ⊆ U.members) : U.Tuples (ms.map ([·])) := by
  intro t ht
  obtain ⟨m, hm, rfl⟩ := List.mem_map.mp ht
  exact List.cons_subset.mpr ⟨h hm, List.nil_subset _⟩

theorem of_subset {ts us : List Tuple} (hus : U.Tuples us) (h : ∀ t ∈ ts, t ∈ us) : U.Tuples ts :=
  fun t ht => hus t (h t ht)

theorem take {ts : List Tuple} (h : U.Tuples ts) (k : Nat) : U.Tuples (ts.take k) :=
  h.of_subset fun _ => List.mem_of_mem_take

theorem flatten {ts : List Tuple} (h : U.Tuples ts) : ts.flatten ⊆ U.members := by
  intro m hm
  obtain ⟨t, ht, hm⟩ := List.mem_flatten.mp hm
  exact h t ht hm

theorem of_flatten {ts : List Tuple} (h : ts.flatten ⊆ U.members) : U.Tuples ts :=
  fun t ht _ hm => h (List.mem_flatten.mpr ⟨t, ht, hm⟩)

theorem deliver {ts : List Tuple} (h : U.Tuples ts) (style : ResultStyle) :
    U.Tuples (TupleSet.deliver ts style).toList := by
  rw [TupleSet.toList_deliver]
  exact h

theorem adapt {s : TupleSet} (h : U.Tuples s.toList) (style : ResultStyle) :
    U.Tuples (s.adapt style).toList := by
  rw [TupleSet.toList_adapt]
  exact h

theorem cartesian : ∀ {lists : List (List Tuple)}, (∀ l ∈ lists, U.Tuples l) →
    U.Tuples (OlapCalc.cartesian lists)
  | [], _ => nil
  | [l], h => h l List.mem_cons_self
  | l :: r :: rest, h => by
    rw [cartesian_cons l (List.cons_ne_nil r rest)]
    intro t ht
    obtain ⟨u, hu, ht⟩ := List.mem_flatMap.mp ht
    obtain ⟨v, hv, rfl⟩ := List.mem_map.mp ht
    have hrest := cartesian fun l' hl' => h l' (List.mem_cons_of_mem l hl')
    exact List.append_subset.mpr ⟨h l List.mem_cons_self u hu, hrest v hv⟩

end Tuples

namespace Covers

variable {ctx : Context}

theorem setMember (h : U.Covers ctx) {m : Member} (hm : m ∈ U.members) : U.Covers (ctx.setMember m) := by
  unfold Context.setMember
  split
  . exact h
  . refine ⟨fun x hx => ?_, h.slicer⟩
    rcases List.mem_or_eq_of_mem_set hx with hx | rfl
    . exact h.coordinate hx
    . exact hm

theorem setTuple (h : U.Covers ctx) {t : Tuple} (ht : t ⊆ U.members) : U.Covers (ctx.setTuple t) := by
  induction t generalizing ctx with
  | nil => exact h
  | cons m t ih =>
    exact ih (h.setMember (ht List.mem_cons_self)) fun x hx => ht (List.mem_cons_of_mem m hx)

theorem projectOut {tuples : List Tuple} (h : U.Tuples tuples) (hierarchies : List Nat) :
    U.Tuples (OlapCalc.projectOut tuples hierarchies) := by
  unfold OlapCalc.projectOut
  refine List.foldl_invariant (fun acc : List Tuple => U.Tuples acc)
    (fun acc t ht hacc => ?_) Tuples.nil
  dsimp only
  split
  . exact hacc
  . exact hacc.append fun u hu => by
      rw [List.mem_singleton] at hu
      exact hu ▸ fun m hm => h t ht (List.mem_filter.mp hm).1

theorem widenSlicer (h : U.Covers ctx) (hs : List Nat) : U.Covers (ctx.widenSlicer hs) := by
  unfold Context.widenSlicer
  split
  . exact ⟨h.coordinate, projectOut h.slicer hs⟩
  . exact h

theorem nonEmpty (h : U.Covers ctx) (b : Bool) : U.Covers { ctx with nonEmpty := b } :=
  ⟨h.coordinate, h.slicer⟩

theorem deeper (h : U.Covers ctx) : U.Covers { ctx with depth := ctx.depth + 1 } :=
  ⟨h.coordinate, h.slicer⟩

theorem resolving (h : U.Covers ctx) (key : String) :
    U.Covers { ctx with resolving := ctx.resolving ++ [key] } :=
  ⟨h.coordinate, h.slicer⟩

theorem current (h : U.Covers ctx) (hier : Nat) :
    ((ctx.current? hier).elim Value.null Value.member).members ⊆ U.members := by
  unfold Context.current?
  cases hm : ctx.coordinate[hier]? with
  | none => exact List.nil_subset _
  | some m => exact List.cons_subset.mpr ⟨h.coordinate (List.mem_of_getElem? hm), List.nil_subset _⟩

theorem apply_tuple (h : U.Covers ctx) {t : Tuple} (ht : t ⊆ U.members) :
    U.Covers ((Overlay.tuple t).apply ctx) :=
  h.setTuple ht

theorem apply_nonEmpty (h : U.Covers ctx) (b : Bool) : U.Covers ((Overlay.nonEmpty b).apply ctx) :=
  h.nonEmpty b

theorem apply_widen (h : U.Covers ctx) (hs : List Nat) : U.Covers ((Overlay.widen hs).apply ctx) :=
  h.widenSlicer hs

end Covers

open EvalAt

theorem Tuples.limiterPush {l l' : Limiter} {t : Tuple} (hl : U.Tuples l.tuples.toList)
    (ht : t ⊆ U.members) (h : l.push t = .ok l') : U.Tuples l'.tuples.toList := by
  rw [Limiter.push_tuples h]
  exact hl.push ht

theorem Tuples.push_yields {l : Limiter} {t : Tuple} (hl : U.Tuples l.tuples.toList)
    (ht : t ⊆ U.members) : Yields (U.Tuples ·.tuples.toList) (liftExcept (l.push t)) :=
  Yields.liftExcept fun _ h => hl.limiterPush ht h

theorem sourceMembers_subset {s : ArgSource} (hs : s.members ⊆ U.members) {src : MemberSource}
    (hsrc : s.stored = some src) {ms : List Member} (h : env.cube.sourceMembers src = .ok ms) :
    ms ⊆ U.members := by
  cases src with
  | level l => exact U.levelMembers_subset l ms h
  | children m =>
    cases h
    exact U.childrenOf_subset m
  | members xs =>
    cases h
    exact fun m hm => hs (List.mem_append_right _ (by simpa [hsrc] using hm))

theorem storedMembers_subset {s : ArgSource} (hs : s.members ⊆ U.members) :
    s.storedMembers env.cube ⊆ U.members := by
  intro m hm
  obtain ⟨src, ms, hsrc, hms, hm⟩ := ArgSource.mem_storedMembers hm
  exact U.sourceMembers_subset hs hsrc hms hm

theorem memberTuples_tuples {s : ArgSource} (hs : s.members ⊆ U.members) :
    U.Tuples (s.memberTuples env.cube) :=
  Tuples.singles (List.append_subset.mpr ⟨U.storedMembers_subset hs,
    fun _ hm => hs (List.mem_append_left _ hm)⟩)

theorem execute_tuples {sources : List ArgSource} (hsources : ∀ s ∈ sources, s.members ⊆ U.members)
    {r : NativeRequest} (hargs : r.args = sources.filterMap (·.stored)) {rows : List Tuple}
    (h : env.cube.execute r = .ok rows) : U.Tuples rows := by
  obtain ⟨lists, hlists, hsub⟩ := Cube.execute_subset_cartesian h
  refine Tuples.of_subset (Tuples.cartesian fun l hl => ?_) hsub
  obtain ⟨src, hsrc, ms, hms, rfl⟩ := hlists.exists_of_mem_right hl
  rw [hargs, List.mem_filterMap] at hsrc
  obtain ⟨s, hs, hstored⟩ := hsrc
  exact Tuples.singles (U.sourceMembers_subset (hsources s hs) hstored hms)

variable (env) in
theorem keepLimited_tuples {l : Limiter} (hl : U.Tuples l.tuples.toList) (tuples : TupleStream)
    (ht : U.Tuples tuples.toList) (drop : Tuple → EvalAt Bool) :
    Yields (U.Tuples ·.tuples.toList) (env.keepLimited l tuples drop) := by
  simp only [keepLimited, TupleStream.forIn_eq_forIn_toList, bind_pure]
  refine Yields.forIn_mem _ (fun t hmem b hb => ?_) l hl
  refine Yields.bind Yields.trivial fun _ _ => Yields.bind Yields.trivial fun kept _ => ?_
  cases kept
  . exact Yields.bind (hb.push_yields (ht t hmem)) fun _ h => Yields.pure h
  . exact Yields.pure hb

variable (env) in
theorem generateLimited_tuples {I : Context → Prop} {l : Limiter} (hl : U.Tuples l.tuples.toList)
    (source : TupleSet) {each : Tuple → EvalAt TupleSet}
    (heach : ∀ t ∈ source.toList, YieldsIn I (U.Tuples ·.toList) (each t)) (all : Bool) :
    YieldsIn I (U.Tuples ·.tuples.toList) (env.generateLimited l source each all) := by
  simp only [generateLimited, TupleStream.forIn_eq_forIn_toList, TupleSet.toList_stream]
  refine YieldsIn.bind (YieldsIn.forIn_mem (J := fun b : Limiter × List Tuple => U.Tuples b.1.tuples.toList) _
    (fun t ht b hb => ?_) (l, []) hl) fun b hb => YieldsIn.pure hb
  refine YieldsIn.bind YieldsIn.trivial fun _ _ => YieldsIn.bind (heach t ht) fun gen hgen => ?_
  refine YieldsIn.bind (YieldsIn.forIn_mem (J := fun b : Limiter × List Tuple => U.Tuples b.1.tuples.toList) _
    (fun item hitem b' hb' => ?_) b hb) fun _ h => YieldsIn.pure h
  have hpush : ∀ seen, YieldsIn I (fun s : ForInStep (Limiter × List Tuple) => U.Tuples s.value.1.tuples.toList)
      (liftExcept (b'.1.push item) >>= fun l => Pure.pure (ForInStep.yield (l, seen))) :=
    fun _ => YieldsIn.bind (YieldsIn.of_yields (hb'.push_yields (hgen item hitem)))
      fun _ h => YieldsIn.pure h
  split
  . exact hpush _
  . split
    . exact hpush _
    . exact YieldsIn.pure hb'

theorem gathered_tuples {sources : List ArgSource} (hsources : ∀ s ∈ sources, s.members ⊆ U.members)
    {st : Array (List Tuple) × Nat × Nat} (hst : Gathered env.cube sources st) :
    U.Tuples (TupleStream.product st.1.toList).toList := by
  rw [TupleStream.toList, hst.1]
  refine Tuples.cartesian fun l hl => ?_
  obtain ⟨s, hs, rfl⟩ := List.mem_map.mp hl
  exact U.memberTuples_tuples (hsources s hs)

variable (env) in
theorem mergeCalculated_tuples (fuel : Nat) {sources : List ArgSource}
    (hsources : ∀ s ∈ sources, s.members ⊆ U.members) (nonEmpty : Bool) {l : Limiter}
    (hl : U.Tuples l.tuples.toList) :
    Yields (U.Tuples ·.tuples.toList) (env.mergeCalculated fuel sources nonEmpty l) := by
  cases fuel with
  | zero => exact Yields.throw _
  | succ fuel =>
    simp only [mergeCalculated, TupleStream.forIn_eq_forIn_toList, bind_pure]
    refine Yields.bind (Gathered.forIn_quiet (fun s _ => by cases s.stored <;> rfl)
      sources).yields fun st hst => ?_
    have hproduct := gathered_tuples hsources hst
    refine Yields.bind Yields.trivial fun _ _ => ?_
    -- in keep-empty mode the room for every combination is checked first
    split
    case' isTrue => refine Yields.bind Yields.trivial fun _ _ => ?_
    -- only the pushes change the limiter, each with a tuple of the product
    all_goals
      refine Yields.forIn_mem _ (fun t hmem b hb => ?_) l hl
      split
      . exact Yields.pure hb
      refine Yields.bind Yields.trivial fun _ _ => ?_
      split
      . refine Yields.bind Yields.trivial fun _ _ => ?_
        split
        . exact Yields.pure hb
        . exact Yields.bind (hb.push_yields (hproduct t hmem)) fun _ h => Yields.pure h
      . exact Yields.bind (hb.push_yields (hproduct t hmem)) fun _ h => Yields.pure h

variable (env) in
theorem attempt_tuples {site : NativeSite} (hsite : site.members ⊆ U.members) (fuel : Nat)
    (nonEmpty : Bool) :
    Yields (fun r => ∀ ts, r = .ok ts → U.Tuples ts) (env.attempt fuel site nonEmpty) := by
  cases fuel with
  | zero => exact Yields.throw _
  | succ fuel =>
    simp only [attempt]
    split
    . exact Yields.pure fun _ h => by cases h
    next plan hplan =>
    have hsources : ∀ s ∈ plan.sources, s.members ⊆ U.members := fun s hs m hm =>
      hsite (by simp only [NativeSite.members, hplan]; exact List.mem_flatMap.mpr ⟨s, hs, hm⟩)
    refine Yields.bind Yields.trivial fun ctx _ => ?_
    split
    . exact Yields.pure fun _ h => by cases h
    split
    . exact Yields.throw_bind _ _
    refine Yields.bind Yields.trivial fun constraint _ => ?_
    split
    . exact Yields.pure fun _ h => by cases h
    split
    . exact Yields.pure fun _ h => by cases h
    refine Yields.bind Yields.trivial fun _ _ => ?_
    refine Yields.bind (Yields.liftExcept fun rows h => U.execute_tuples hsources rfl h) fun rows hrows => ?_
    refine Yields.bind (keepLimited_tuples env (l := ⟨_, #[]⟩) Tuples.nil (.list rows) hrows _)
      fun limiter hlimiter => ?_
    split
    . exact Yields.bind (mergeCalculated_tuples env fuel hsources _ hlimiter) fun merged hmerged =>
        Yields.pure fun _ h => by cases h; exact hmerged
    . exact Yields.pure fun _ h => by cases h; exact hlimiter

variable (env) in
theorem dispatch_tuples {site : NativeSite} (hsite : site.members ⊆ U.members) (fuel : Nat)
    (nonEmpty : Bool) :
    Yields (fun r => ∀ ts, r = some ts → U.Tuples ts) (env.dispatch fuel site nonEmpty) := by
  cases fuel with
  | zero => exact Yields.throw _
  | succ fuel =>
    simp only [dispatch]
    refine Yields.bind (attempt_tuples env hsite fuel nonEmpty) fun r hr => ?_
    split
    . next _ ts => exact Yields.pure fun _ h => by cases h; exact hr ts rfl
    -- a plan that does not apply hands back nothing, or fails when it must apply
    split
    . exact Yields.pure fun _ h => by cases h
    split
    . exact Yields.throw _
    . exact Yields.pure fun _ h => by cases h

theorem Tuples.keyed {β : Type} {keyed sorted : List (β × Tuple)} (h : ∀ p ∈ keyed, p.2 ⊆ U.members)
    (hs : ∀ p ∈ sorted, p ∈ keyed) : U.Tuples (sorted.map (·.2)) := by
  intro t ht
  obtain ⟨p, hp, rfl⟩ := List.mem_map.mp ht
  exact h p (hs p hp)

theorem Tuples.takeStream {s : TupleSet} (hs : U.Tuples s.toList) (k : Nat) :
    U.Tuples (TupleStream.take k s.stream).collect := by
  rw [TupleStream.collect_eq_toList, TupleStream.toList, TupleSet.toList_stream]
  exact hs.take k

variable (U) in
/-- At nesting bound `fuel`, from a context the universe covers: a node naming members of the
universe gives a value whose members are in it, a set node and a set operand tuples of members
of it, and so does the current cell. -/
structure StaysAt (fuel : Nat) : Prop where
  cellValue : YieldsIn U.Covers (·.members ⊆ U.members) (env.cellValue fuel)
  eval : ∀ n : Node, n.members ⊆ U.members →
    YieldsIn U.Covers (·.members ⊆ U.members) (env.eval fuel n)
  evalSet : ∀ (n : Node) (style : ResultStyle), n.members ⊆ U.members →
    YieldsIn U.Covers (U.Tuples ·.toList) (env.evalSet fuel n style)
  evalArg : ∀ a : SetArg, Node.argMembers a ⊆ U.members →
    YieldsIn U.Covers (U.Tuples ·.toList) (env.evalArg fuel a)

variable (U) in
theorem staysAt_zero : U.StaysAt 0 := by
  refine ⟨?_, fun _ _ => ?_, fun _ _ _ => ?_, fun _ _ => ?_⟩
  all_goals simp only [Env.eval, Env.evalSet, Env.evalArg, Env.cellValue]
  all_goals exact YieldsIn.throw _

namespace StaysAt

variable {fuel : Nat}

theorem cellValue_succ (ih : U.StaysAt fuel) :
    YieldsIn U.Covers (·.members ⊆ U.members) (env.cellValue (fuel + 1)) := by
  simp only [Env.cellValue]
  refine YieldsIn.bind YieldsIn.trivial fun _ _ => YieldsIn.read fun ctx hctx => ?_
  split
  . -- a stored cell is a number or null
    exact YieldsIn.of_yields ((loadCell_conforms ctx).imp fun v hv => by
      rw [Value.members_of_conforms_scalar hv]
      exact List.nil_subset _)
  . next member hlead =>
    split
    . exact YieldsIn.throw _
    . -- the formula of a calculated member of the coordinate names members of the universe
      have hmem := hctx.coordinate (Context.leadingCalculated_mem hlead)
      refine YieldsIn.bind (YieldsIn.liftEval fun _ node _ h =>
        U.formula_subset member hmem node (formulaNode_ok h)) fun node hnode => ?_
      exact YieldsIn.deeper (fun _ h => h.deeper) (ih.eval node hnode)

theorem evalArg_succ (ih : U.StaysAt fuel) (a : SetArg) (ha : Node.argMembers a ⊆ U.members) :
    YieldsIn U.Covers (U.Tuples ·.toList) (env.evalArg (fuel + 1) a) := by
  cases a with
  | mk n style =>
    simp only [Env.evalArg]
    exact YieldsIn.bind (ih.evalSet n style ha) fun s hs => YieldsIn.pure (Tuples.adapt hs style)

theorem eval_succ (ih : U.StaysAt fuel) (node : Node) (hnode : node.members ⊆ U.members) :
    YieldsIn U.Covers (·.members ⊆ U.members) (env.eval (fuel + 1) node) := by
  cases node
  -- a set node is evaluated as a set and handed over as a list
  case levelMembers | children | enumerate | singleton | crossJoin | filter | topCount | head
    | order | generate =>
    simp only [Env.eval]
    exact YieldsIn.bind (ih.evalSet _ .list hnode) fun _ hs => YieldsIn.pure hs.flatten
  all_goals simp only [Node.members, List.append_subset] at hnode
  all_goals simp only [Env.eval]
  case const => exact YieldsIn.pure hnode
  case memberConst => exact YieldsIn.pure hnode
  case currentMember h => exact YieldsIn.read fun ctx hctx => YieldsIn.pure (hctx.current h)
  case slicer => exact YieldsIn.read fun ctx hctx => YieldsIn.pure hctx.slicer.flatten
  case parent n =>
    refine YieldsIn.bind (ih.eval n hnode) fun v hv => ?_
    refine YieldsIn.bind (YieldsIn.liftExcept fun m hm => hv (Value.mem_of_asMember hm)) fun m hm => ?_
    exact YieldsIn.pure (Value.members_elim fun p hp =>
      List.cons_subset.mpr ⟨U.parent_mem m hm p hp, List.nil_subset _⟩)
  case memberToTuple n =>
    refine YieldsIn.bind (ih.eval n hnode) fun v hv => ?_
    refine YieldsIn.bind (YieldsIn.liftExcept fun m hm => hv (Value.mem_of_asMember hm)) fun m hm => ?_
    exact YieldsIn.pure (List.cons_subset.mpr ⟨hm, List.nil_subset _⟩)
  case memberValue t =>
    refine YieldsIn.bind (ih.eval t hnode) fun v hv => ?_
    refine YieldsIn.bind (YieldsIn.liftExcept fun tuple h =>
      List.Subset.trans (Value.subset_of_asTuple h) hv)
      fun tuple htuple => ?_
    exact YieldsIn.within _ (fun _ h => h.apply_tuple htuple) ih.cellValue
  case iif c t e s =>
    refine YieldsIn.bind YieldsIn.trivial fun _ _ => YieldsIn.bind YieldsIn.trivial fun _ _ => ?_
    split
    . exact ih.eval t hnode.1.2
    . exact ih.eval e hnode.2
  case coerce n target =>
    refine YieldsIn.bind (ih.eval n hnode) fun v hv => ?_
    -- a conversion to one of four categories names no member; the value as it is keeps its own
    split
    . exact YieldsIn.bind YieldsIn.trivial fun _ _ =>
        YieldsIn.pure (Value.members_ofOptFloat _ ▸ List.nil_subset _)
    . exact YieldsIn.bind YieldsIn.trivial fun _ _ =>
        YieldsIn.pure (Value.members_elim fun _ _ => List.nil_subset _)
    . exact YieldsIn.bind YieldsIn.trivial fun _ _ =>
        YieldsIn.pure (Value.members_elim fun _ _ => List.nil_subset _)
    . exact YieldsIn.bind YieldsIn.trivial fun _ _ =>
        YieldsIn.pure (Value.members_elim fun _ _ => List.nil_subset _)
    . exact YieldsIn.pure hv
  case tuple ns =>
    -- one member of the universe is pushed per operand
    have hns := Node.membersAll_subset.mp hnode
    refine YieldsIn.bind (YieldsIn.forIn_mem (J := fun arr : Array Member => arr.toList ⊆ U.members)
      ns (fun n hn arr harr => ?_) #[] (List.nil_subset _)) fun arr harr => YieldsIn.pure harr
    refine YieldsIn.bind (ih.eval n (hns n hn)) fun v hv => ?_
    refine YieldsIn.bind (YieldsIn.liftExcept fun m hm => hv (Value.mem_of_asMember hm)) fun m hm => ?_
    split
    . exact YieldsIn.bind (P := fun _ => False) (YieldsIn.throw _) fun _ h => h.elim
    . exact YieldsIn.pure fun _ hx =>
        forall_mem_toList_push (p := (· ∈ U.members)) (fun _ hx => harr hx) hm _ hx
  case coalesce ns s =>
    -- the first value that is not null, taken from an operand
    have hns := Node.membersAll_subset.mp hnode
    refine YieldsIn.bind (YieldsIn.forIn_mem (J := fun st : Option Value × Unit =>
      ∀ v, st.1 = some v → v.members ⊆ U.members) ns (fun n hn _ _ => ?_) _ fun _ h => by cases h)
      fun st hst => ?_
    . refine YieldsIn.bind (ih.eval n (hns n hn)) fun v hv => ?_
      split
      . exact YieldsIn.pure fun _ h => by cases h; exact hv
      . exact YieldsIn.pure fun _ h => by cases h
    . split
      . next r hr => exact YieldsIn.pure (hst r hr)
      . exact YieldsIn.pure (List.nil_subset _)
  case compare =>
    exact YieldsIn.bind YieldsIn.trivial fun _ _ => YieldsIn.bind YieldsIn.trivial fun _ _ =>
      YieldsIn.liftExcept fun _ h =>
        Value.members_of_conforms_boolean (compareValues_conforms h) ▸ List.nil_subset _
  -- the other operators give numbers, strings and booleans, which name no members
  case isEmpty | format =>
    exact YieldsIn.bind YieldsIn.trivial fun _ _ => YieldsIn.pure (List.nil_subset _)
  case memberName | not =>
    exact YieldsIn.bind YieldsIn.trivial fun _ _ => YieldsIn.bind YieldsIn.trivial fun _ _ =>
      YieldsIn.pure (List.nil_subset _)
  case negate =>
    exact YieldsIn.bind YieldsIn.trivial fun _ _ => YieldsIn.bind YieldsIn.trivial fun _ _ =>
      YieldsIn.pure (Value.members_ofOptFloat _ ▸ List.nil_subset _)
  case truncate | toText =>
    exact YieldsIn.bind YieldsIn.trivial fun _ _ => YieldsIn.bind YieldsIn.trivial fun _ _ =>
      YieldsIn.pure (Value.members_elim fun _ _ => List.nil_subset _)
  case formatWith =>
    exact YieldsIn.bind YieldsIn.trivial fun _ _ => YieldsIn.bind YieldsIn.trivial fun _ _ =>
      YieldsIn.bind YieldsIn.trivial fun _ _ => YieldsIn.pure (List.nil_subset _)
  case arith =>
    refine YieldsIn.bind YieldsIn.trivial fun _ _ => YieldsIn.bind YieldsIn.trivial fun _ _ => ?_
    split
    . exact YieldsIn.pure (List.nil_subset _)
    . exact YieldsIn.bind YieldsIn.trivial fun _ _ => YieldsIn.bind YieldsIn.trivial fun _ _ =>
        YieldsIn.bind YieldsIn.trivial fun _ _ =>
        YieldsIn.pure (Value.members_ofOptFloat _ ▸ List.nil_subset _)
  case logical =>
    refine YieldsIn.bind YieldsIn.trivial fun _ _ => YieldsIn.bind YieldsIn.trivial fun _ _ => ?_
    split
    . exact YieldsIn.pure (List.nil_subset _)
    . exact YieldsIn.bind YieldsIn.trivial fun _ _ => YieldsIn.bind YieldsIn.trivial fun _ _ =>
        YieldsIn.pure (List.nil_subset _)
  case sum =>
    refine YieldsIn.bind YieldsIn.trivial fun _ _ => ?_
    split
    . exact YieldsIn.pure (List.nil_subset _)
    split
    . exact YieldsIn.pure (List.nil_subset _)
    . exact YieldsIn.pure (List.nil_subset _)
  case avg | dispersion =>
    exact YieldsIn.bind YieldsIn.trivial fun _ _ =>
      YieldsIn.pure (Value.members_ofOptFloat _ ▸ List.nil_subset _)
  case extremum =>
    refine YieldsIn.bind YieldsIn.trivial fun _ _ => ?_
    split
    . exact YieldsIn.pure (List.nil_subset _)
    . exact YieldsIn.pure (List.nil_subset _)
  case pairwise =>
    refine YieldsIn.bind YieldsIn.trivial fun _ _ => ?_
    split
    . exact YieldsIn.pure (Value.members_ofOptFloat _ ▸ List.nil_subset _)
    . exact YieldsIn.pure (Value.members_ofOptFloat _ ▸ List.nil_subset _)
  case aggregate =>
    refine YieldsIn.read fun _ _ => YieldsIn.bind YieldsIn.trivial fun _ _ => ?_
    split
    . exact YieldsIn.pure (List.nil_subset _)
    . exact YieldsIn.pure (List.nil_subset _)
  case count =>
    split
    . exact YieldsIn.bind (YieldsIn.within _ (fun _ h => h.apply_nonEmpty _) YieldsIn.trivial)
        fun _ _ => YieldsIn.pure (List.nil_subset _)
    . exact YieldsIn.within _ (fun _ h => h.apply_nonEmpty _) (YieldsIn.bind YieldsIn.trivial
        fun _ _ => YieldsIn.bind YieldsIn.trivial fun _ _ => YieldsIn.pure (List.nil_subset _))
  case percentile =>
    -- the share is read first, from the percent operand when there is one
    split
    case' h_1 => refine YieldsIn.bind YieldsIn.trivial fun _ _ => ?_
    case' h_2 =>
      refine YieldsIn.bind YieldsIn.trivial fun _ _ => YieldsIn.bind YieldsIn.trivial fun _ _ =>
        YieldsIn.bind YieldsIn.trivial fun _ _ => ?_
    all_goals
      split
      . exact YieldsIn.pure (List.nil_subset _)
      . exact YieldsIn.bind YieldsIn.trivial fun _ _ =>
          YieldsIn.pure (Value.members_ofOptFloat _ ▸ List.nil_subset _)
  case regression =>
    -- the forecast point is read first, when there is one, and the fit is made after it
    split
    case' h_1 => refine YieldsIn.bind YieldsIn.trivial fun _ _ => ?_
    case' h_2 =>
      refine YieldsIn.bind YieldsIn.trivial fun _ _ => YieldsIn.bind YieldsIn.trivial fun _ _ => ?_
      split
      all_goals refine YieldsIn.bind YieldsIn.trivial fun _ _ => ?_
    all_goals
      split
      . exact YieldsIn.pure (List.nil_subset _)
      refine YieldsIn.bind YieldsIn.trivial fun _ _ => ?_
      split
      . exact YieldsIn.pure (List.nil_subset _)
      . exact YieldsIn.pure (Value.members_ofOptFloat _ ▸ List.nil_subset _)

theorem evalSet_succ (ih : U.StaysAt fuel) (node : Node) (style : ResultStyle)
    (hnode : node.members ⊆ U.members) :
    YieldsIn U.Covers (U.Tuples ·.toList) (env.evalSet (fuel + 1) node style) := by
  cases node
  -- the other nodes are evaluated as values, which must be sets
  case const | memberConst | currentMember | parent | memberName | tuple | memberToTuple | arith
    | negate | compare | logical | not | iif | isEmpty | coalesce | format | formatWith | coerce
    | truncate | toText | memberValue | sum | avg | extremum | percentile | dispersion | regression
    | pairwise | count | aggregate =>
    simp only [Env.evalSet]
    refine YieldsIn.bind (ih.eval _ hnode) fun v hv => ?_
    split
    . next ts => exact YieldsIn.pure (Tuples.adapt (Tuples.of_flatten hv : U.Tuples ts) style)
    . exact YieldsIn.pure Tuples.nil
    . exact YieldsIn.throw _
  all_goals simp only [Node.members, List.append_subset] at hnode
  all_goals simp only [Env.evalSet]
  case levelMembers l =>
    refine YieldsIn.bind (YieldsIn.liftExcept fun ms h => U.levelMembers_subset l ms h) fun ms hms => ?_
    exact YieldsIn.pure (Tuples.deliver (Tuples.singles hms) style)
  case children n =>
    refine YieldsIn.bind (ih.eval n hnode) fun v _ => ?_
    split
    . exact YieldsIn.pure (Tuples.deliver (Tuples.singles (U.childrenOf_subset _)) style)
    . exact YieldsIn.pure (Tuples.deliver Tuples.nil style)
    . exact YieldsIn.throw _
  case singleton n =>
    refine YieldsIn.bind (ih.eval n hnode) fun v hv => ?_
    split
    . exact YieldsIn.pure (Tuples.deliver Tuples.nil style)
    . exact YieldsIn.pure (Tuples.deliver (Tuples.singles hv) style)
    . exact YieldsIn.pure (Tuples.deliver (fun t ht => by cases List.mem_singleton.mp ht; exact hv) style)
    . exact YieldsIn.throw _
  case slicer => exact YieldsIn.read fun ctx hctx => YieldsIn.pure (Tuples.adapt hctx.slicer style)
  case enumerate items _ =>
    have hitems := Node.itemMembers_subset.mp hnode
    refine YieldsIn.bind (YieldsIn.forIn_mem (J := fun arr : Array Tuple => U.Tuples arr.toList)
      items (fun it hit arr harr => ?_) #[] Tuples.nil) fun arr harr =>
      YieldsIn.pure (Tuples.deliver harr style)
    have hit := hitems it hit
    cases it with
    | single n =>
      simp only [Node.itemMembers, List.append_nil] at hit
      refine YieldsIn.bind (ih.eval n hit) fun v hv => ?_
      split
      . exact YieldsIn.pure harr
      . exact YieldsIn.pure (harr.push hv)
      . exact YieldsIn.pure (harr.push hv)
      . exact YieldsIn.bind (P := fun _ => False) (YieldsIn.throw _) fun _ h => h.elim
    | splice a =>
      -- the spliced set's tuples are pushed one by one
      simp only [Node.itemMembers, List.append_nil] at hit
      refine YieldsIn.bind (ih.evalArg a hit) fun s hs => ?_
      rw [TupleStream.forIn_eq_forIn_toList, TupleSet.toList_stream]
      refine YieldsIn.bind (YieldsIn.forIn_mem (J := fun arr : Array Tuple => U.Tuples arr.toList)
        s.toList (fun t ht arr' harr' => ?_) arr harr) fun _ h => YieldsIn.pure h
      exact YieldsIn.pure (harr'.push (hs t ht))
  case crossJoin args site force =>
    have hargs := Node.argsMembers_subset.mp hnode.1
    refine YieldsIn.read fun ctx _ => ?_
    refine YieldsIn.bind (YieldsIn.of_yields (dispatch_tuples env hnode.2 fuel _)) fun r hr => ?_
    split
    . next ts => exact YieldsIn.pure (Tuples.deliver (hr ts rfl) style)
    -- the operands' tuples, then their product
    refine YieldsIn.bind (YieldsIn.forIn_mem (J := fun lists : Array (List Tuple) =>
      ∀ l ∈ lists.toList, U.Tuples l) args (fun a ha lists hlists => ?_) #[]
      (fun _ h => absurd h List.not_mem_nil)) fun lists hlists => ?_
    . exact YieldsIn.bind (ih.evalArg a (hargs a ha)) fun s hs =>
        YieldsIn.pure (forall_mem_toList_push hlists hs)
    have hproduct : U.Tuples (TupleStream.product lists.toList).toList := Tuples.cartesian hlists
    have hcollect : U.Tuples (TupleStream.product lists.toList).collect := by
      rw [TupleStream.collect_eq_toList]
      exact hproduct
    split
    . -- empty tuples kept: a bound on the product, then the product lazily or walked
      split
      . exact YieldsIn.bind (P := fun _ => False) (YieldsIn.throw _) fun _ h => h.elim
      split
      . exact YieldsIn.pure hcollect
      . rw [TupleStream.forIn_eq_forIn_toList]
        refine YieldsIn.bind (YieldsIn.forIn_mem (J := fun arr : Array Tuple => U.Tuples arr.toList) _
          (fun t ht arr harr => ?_) #[] Tuples.nil) fun _ harr => YieldsIn.pure (Tuples.deliver harr style)
        exact YieldsIn.bind YieldsIn.trivial fun _ _ => YieldsIn.pure (harr.push (hproduct t ht))
    . -- empty tuples dropped: one limited walk under the widened slicer
      exact YieldsIn.within _ (fun _ h => h.apply_widen _)
        (YieldsIn.bind (YieldsIn.of_yields (keepLimited_tuples env Tuples.nil _ hproduct _))
          fun _ hl => YieldsIn.pure (Tuples.deliver hl style))
  case filter set c site =>
    refine YieldsIn.bind (YieldsIn.of_yields (dispatch_tuples env hnode.2 fuel false)) fun r hr => ?_
    split
    . next ts => exact YieldsIn.pure (Tuples.deliver (hr ts rfl) style)
    refine YieldsIn.bind (ih.evalArg set hnode.1.1) fun s hs => ?_
    rw [TupleStream.forIn_eq_forIn_toList, TupleSet.toList_stream]
    refine YieldsIn.bind (YieldsIn.forIn_mem (J := fun arr : Array Tuple => U.Tuples arr.toList) _
      (fun t ht arr harr => ?_) #[] Tuples.nil) fun _ harr => YieldsIn.pure (Tuples.deliver harr style)
    refine YieldsIn.bind YieldsIn.trivial fun _ _ => YieldsIn.bind YieldsIn.trivial fun _ _ => ?_
    split
    . exact YieldsIn.pure (harr.push (hs t ht))
    . exact YieldsIn.pure harr
  case topCount set count measure site top =>
    obtain ⟨⟨⟨hset, -⟩, -⟩, hsite⟩ := hnode
    -- the native site first, when there is one
    split
    case' h_1 site =>
      simp only [Option.map_some, Option.getD_some] at hsite
      refine YieldsIn.bind (YieldsIn.of_yields (dispatch_tuples env hsite fuel false)) fun r hr => ?_
    case' h_2 =>
      refine YieldsIn.bind (YieldsIn.pure (P := fun r : Option (List Tuple) =>
        ∀ ts, r = some ts → U.Tuples ts) fun _ h => by cases h) fun r hr => ?_
    all_goals
      split
      . next ts => exact YieldsIn.pure (Tuples.deliver (hr ts rfl) style)
      refine YieldsIn.bind YieldsIn.trivial fun _ _ => YieldsIn.bind YieldsIn.trivial fun _ _ => ?_
      refine YieldsIn.bind (ih.evalArg set hset) fun s hs => ?_
      split
      . exact YieldsIn.pure (Tuples.deliver (hs.take _) style)
      -- the measure is read at each tuple, and the tuples come back in its order
      refine YieldsIn.bind (YieldsIn.forIn_mem (J := fun arr : Array (Option Float × Tuple) =>
        ∀ p ∈ arr.toList, p.2 ⊆ U.members) _ (fun t ht arr harr => ?_) #[]
        (fun _ h => absurd h List.not_mem_nil)) fun arr harr => ?_
      . exact YieldsIn.bind YieldsIn.trivial fun _ _ => YieldsIn.bind YieldsIn.trivial fun _ _ =>
          YieldsIn.pure (forall_mem_toList_push harr (hs t ht))
      refine YieldsIn.pure (Tuples.deliver (Tuples.keyed harr fun p hp => ?_) style)
      have hp := List.mem_of_mem_take hp
      split at hp <;> exact List.mem_mergeSort.mp hp
  case head set count =>
    -- the count first, when there is one
    split
    case' h_1 =>
      refine YieldsIn.bind YieldsIn.trivial fun _ _ => YieldsIn.bind YieldsIn.trivial fun _ _ => ?_
    all_goals
      refine YieldsIn.bind YieldsIn.trivial fun _ _ =>
        YieldsIn.bind (ih.evalArg set hnode.1) fun s hs => ?_
      split
      . exact YieldsIn.pure (Tuples.takeStream hs _)
      . exact YieldsIn.pure (Tuples.deliver (Tuples.takeStream hs _) style)
  case order set key _ =>
    refine YieldsIn.bind (ih.evalArg set hnode.1) fun s hs => ?_
    refine YieldsIn.bind (YieldsIn.forIn_mem (J := fun arr : Array (Value × Tuple) =>
      ∀ p ∈ arr.toList, p.2 ⊆ U.members) _ (fun t ht arr harr => ?_) #[]
      (fun _ h => absurd h List.not_mem_nil)) fun arr harr => ?_
    . exact YieldsIn.bind YieldsIn.trivial fun _ _ => YieldsIn.bind YieldsIn.trivial fun _ _ =>
        YieldsIn.pure (forall_mem_toList_push harr (hs t ht))
    refine YieldsIn.pure (Tuples.deliver (Tuples.keyed harr fun p hp => ?_) style)
    split at hp <;> exact List.mem_mergeSort.mp hp
  case generate source each all =>
    refine YieldsIn.bind (ih.evalArg source hnode.1) fun s hs => ?_
    exact YieldsIn.bind (generateLimited_tuples env (l := ⟨_, #[]⟩) Tuples.nil s
      (fun t ht => YieldsIn.within _ (fun _ h => h.apply_tuple (hs t ht)) (ih.evalArg each hnode.2)) all)
      fun _ hl => YieldsIn.pure (Tuples.deliver hl style)

theorem succ (ih : U.StaysAt fuel) : U.StaysAt (fuel + 1) :=
  ⟨ih.cellValue_succ, ih.eval_succ, ih.evalSet_succ, ih.evalArg_succ⟩

end StaysAt

variable (U) in
theorem staysAt : ∀ fuel, U.StaysAt fuel
  | 0 => U.staysAt_zero
  | fuel + 1 => (staysAt fuel).succ

end Universe

/-- The members a cube lists: those of its levels and of its child lists. -/
def listedMembers (env : Env) : List Member :=
  env.cube.levels.flatten.flatten ++ env.cube.children.flatMap (·.2)

theorem levelMembers_subset_listed (env : Env) {l : LevelRef} {ms : List Member}
    (h : env.cube.levelMembers l = .ok ms) : ms ⊆ env.listedMembers := by
  intro m hm
  unfold Cube.levelMembers at h
  split at h
  . next ms' hlevel =>
    cases h
    obtain ⟨ls, hls, hms⟩ := Option.bind_eq_some_iff.mp hlevel
    refine List.mem_append_left _ ?_
    exact List.mem_flatten.mpr ⟨ms, List.mem_flatten.mpr ⟨ls, List.mem_of_getElem? hls,
      List.mem_of_getElem? hms⟩, hm⟩
  . cases h

theorem childrenOf_subset_listed (env : Env) (m : Member) :
    env.cube.childrenOf m ⊆ env.listedMembers := by
  intro x hx
  unfold Cube.childrenOf at hx
  cases hc : env.cube.children.find? (·.1 == m.uniqueName) with
  | none => simp [hc] at hx
  | some c =>
    simp only [hc, Option.map_some, Option.getD_some] at hx
    exact List.mem_append_right _ (List.mem_flatMap.mpr ⟨c, List.mem_of_find?_eq_some hc, hx⟩)

/-- The universe generated by `seed`: the members the cube lists and those of `seed`, with
every member their parents and formulas reach. -/
def Universe.of (env : Env) (seed : List Member) : env.Universe where
  members := (env.listedMembers ++ seed).flatMap Member.subterms
  parent_mem m hm p hp := by
    obtain ⟨x, hx, hm⟩ := List.mem_flatMap.mp hm
    exact List.mem_flatMap.mpr ⟨x, hx, Member.subterms_subset hm (Member.parent_mem_subterms hp)⟩
  levelMembers_subset l ms h m hm := List.mem_flatMap.mpr
    ⟨m, List.mem_append_left _ (env.levelMembers_subset_listed h hm), Member.mem_subterms_self m⟩
  childrenOf_subset m x hx := List.mem_flatMap.mpr
    ⟨x, List.mem_append_left _ (env.childrenOf_subset_listed m hx), Member.mem_subterms_self x⟩
  formula_subset m hm n h := by
    obtain ⟨x, hx, hm⟩ := List.mem_flatMap.mp hm
    unfold formula? at h
    obtain ⟨⟨e, o⟩, hf, h⟩ := Option.bind_eq_some_iff.mp h
    have hn : env.functions.compile e .value = .ok n := by
      cases hc : env.functions.compile e .value with
      | error _ => simp [hc, Except.toOption] at h
      | ok n' => simpa [hc, Except.toOption] using h
    intro y hy
    exact List.mem_flatMap.mpr ⟨x, hx, Member.subterms_subset hm (Member.formula_subterms hf
      (env.functions.compile_members e .value hn hy))⟩

theorem Universe.seed_subset (env : Env) (seed : List Member) : seed ⊆ (Universe.of env seed).members :=
  fun m hm => List.mem_flatMap.mpr ⟨m, List.mem_append_right _ hm, Member.mem_subterms_self m⟩

theorem Universe.covers_seed (env : Env) (ctx : Context) (node : Node) :
    (Universe.of env (ctx.seed node)).Covers ctx := by
  have hseed := Universe.seed_subset env (ctx.seed node)
  refine ⟨fun m hm => hseed ?_, Universe.Tuples.of_flatten fun m hm => hseed ?_⟩
  all_goals simp [Context.seed, hm]

theorem value_members_reachable (env : Env) (ctx : Context) (node : Node) (fuel : Nat) (c : Counters)
    {v : Value} (h : (((env.eval fuel node : EvalAt Value).run ctx).run.run c).1 = .ok v) :
    v.members ⊆ (Universe.of env (ctx.seed node)).members := by
  have hseed := Universe.seed_subset env (ctx.seed node)
  exact ((Universe.of env _).staysAt fuel).eval node (fun m hm => hseed (by simp [Context.seed, hm])) ctx
    (Universe.covers_seed env ctx node) c v h

end Env

end OlapCalc
