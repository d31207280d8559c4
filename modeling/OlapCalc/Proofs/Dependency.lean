import OlapCalc.Proofs.Indifference
import OlapCalc.Proofs.Scope
import OlapCalc.Proofs.Pushdown

/-!
What a node's dependency analysis promises.

`Node.dependsOn h` claims that a node's value does not change when the current member of
hierarchy `h` does. Evaluated with empty tuples kept and native evaluation switched off, every
node that claims independence computes the same (value or error, and the same counts) from two
contexts that differ in that member alone, when `h` is not the measures hierarchy.

Outside these bounds the claim fails. An `Aggregate` with a value expression rolls the values
up with the aggregator of the current measure, so it depends on the measures hierarchy; a cross
join that the context asks to drop empty tuples reads the cells, which depend on every
hierarchy; and a delegated cross join evaluates the aggregate members of the context.
-/

namespace OlapCalc

namespace Context

@[simp] theorem setMember_nonEmpty (ctx : Context) (m : Member) :
    (ctx.setMember m).nonEmpty = ctx.nonEmpty := by
  unfold setMember
  split <;> rfl

@[simp] theorem setTuple_nonEmpty (ctx : Context) (t : Tuple) :
    (ctx.setTuple t).nonEmpty = ctx.nonEmpty := by
  induction t generalizing ctx with
  | nil => rfl
  | cons m t ih => exact (ih (ctx.setMember m)).trans (setMember_nonEmpty ctx m)

@[simp] theorem widenSlicer_nonEmpty (ctx : Context) (hs : List Nat) :
    (ctx.widenSlicer hs).nonEmpty = ctx.nonEmpty := by
  unfold widenSlicer
  split <;> rfl

/-- `ctx₂` is `ctx₁` with at most the current member of hierarchy `h` replaced. -/
def DiffersAt (h : Nat) (ctx₁ ctx₂ : Context) : Prop :=
  ∃ m, ctx₂ = { ctx₁ with coordinate := ctx₁.coordinate.set h m }

namespace DiffersAt

variable {h : Nat} {ctx₁ ctx₂ : Context}

theorem current? (hd : DiffersAt h ctx₁ ctx₂) {k : Nat} (hk : k ≠ h) :
    ctx₂.current? k = ctx₁.current? k := by
  obtain ⟨m, rfl⟩ := hd
  simp [Context.current?, List.getElem?_set_ne (Ne.symm hk)]

theorem nonEmpty_eq (hd : DiffersAt h ctx₁ ctx₂) : ctx₂.nonEmpty = ctx₁.nonEmpty := by
  obtain ⟨m, rfl⟩ := hd
  rfl

theorem slicer_eq (hd : DiffersAt h ctx₁ ctx₂) : ctx₂.slicer = ctx₁.slicer := by
  obtain ⟨m, rfl⟩ := hd
  rfl

theorem setMember (hd : DiffersAt h ctx₁ ctx₂) (x : Member) :
    DiffersAt h (ctx₁.setMember x) (ctx₂.setMember x) := by
  obtain ⟨m, rfl⟩ := hd
  unfold Context.setMember
  by_cases hx : x.hierarchy = h
  . -- a member of `h` itself: each context ends on `x` or keeps its own member of `h`
    simp only [hx]
    split <;> split
    . exact ⟨m, rfl⟩
    . exact ⟨x, by simp⟩
    . exact ⟨m, by simp⟩
    . exact ⟨x, by simp⟩
  . have hget : (ctx₁.coordinate.set h m)[x.hierarchy]? = ctx₁.coordinate[x.hierarchy]? :=
      List.getElem?_set_ne (Ne.symm hx)
    simp only [hget]
    split
    . exact ⟨m, rfl⟩
    . exact ⟨m, by simp [List.set_comm _ _ hx]⟩

theorem setTuple (hd : DiffersAt h ctx₁ ctx₂) (t : Tuple) :
    DiffersAt h (ctx₁.setTuple t) (ctx₂.setTuple t) := by
  induction t generalizing ctx₁ ctx₂ with
  | nil => exact hd
  | cons x t ih => exact ih (hd.setMember x)

theorem widenSlicer (hd : DiffersAt h ctx₁ ctx₂) (hs : List Nat) :
    DiffersAt h (ctx₁.widenSlicer hs) (ctx₂.widenSlicer hs) := by
  obtain ⟨m, rfl⟩ := hd
  unfold Context.widenSlicer
  split
  . exact ⟨m, rfl⟩
  . exact ⟨m, rfl⟩

end DiffersAt

theorem differsAt_refl (h : Nat) (ctx : Context) : ctx.DiffersAt h ctx := by
  cases hc : ctx.coordinate[h]? with
  | none =>
    refine ⟨default, ?_⟩
    rw [List.set_eq_of_length_le (List.getElem?_eq_none_iff.mp hc)]
  | some current => exact ⟨current, by rw [Evaluator.set_self_of_getElem? hc]⟩

theorem differsAt_setMember (ctx : Context) (m : Member) :
    ctx.DiffersAt m.hierarchy (ctx.setMember m) := by
  unfold setMember
  split
  . exact differsAt_refl _ ctx
  . exact ⟨m, rfl⟩

/-- The contexts of two runs that keep empty tuples and differ at most in the current member of
hierarchy `h`. -/
def MovedAlong (h : Nat) (ctx₁ ctx₂ : Context) : Prop :=
  ctx₁.nonEmpty = false ∧ ctx₁.DiffersAt h ctx₂

end Context

/-- The overlays that keep empty tuples. -/
def Overlay.KeepsEmpty : Overlay → Prop
  | .nonEmpty b => b = false
  | _ => True

theorem Context.MovedAlong.apply {h : Nat} {ctx₁ ctx₂ : Context} (hR : ctx₁.MovedAlong h ctx₂) :
    ∀ o : Overlay, o.KeepsEmpty → (o.apply ctx₁).MovedAlong h (o.apply ctx₂)
  | .tuple t, _ => ⟨(Context.setTuple_nonEmpty ctx₁ t).trans hR.1, hR.2.setTuple t⟩
  | .nonEmpty b, hb => ⟨hb, by obtain ⟨m, rfl⟩ := hR.2; exact ⟨m, rfl⟩⟩
  | .widen hs, _ => ⟨(Context.widenSlicer_nonEmpty ctx₁ hs).trans hR.1, hR.2.widenSlicer hs⟩

/-- Every native path switched off, as in `EngineConfig.interpretedOnly`. -/
def EngineConfig.NativeOff (c : EngineConfig) : Prop :=
  c.enableNativeCrossJoin = false ∧ c.enableNativeTopCount = false ∧ c.enableNativeFilter = false

namespace Node

variable {h : Nat}

theorem dependsOn_of_mem {n : Node} {ns : List Node} (hn : n ∈ ns)
    (hd : anyDepends h ns = false) : n.dependsOn h = false := by
  induction ns with
  | nil => cases hn
  | cons m ns ih =>
    simp only [anyDepends, Bool.or_eq_false_iff] at hd
    rcases List.mem_cons.mp hn with rfl | hmem
    . exact hd.1
    . exact ih hmem hd.2

theorem argDepends_of_mem {a : SetArg} {args : List SetArg} (ha : a ∈ args)
    (hd : argsDepend h args = false) : argDepends h a = false := by
  induction args with
  | nil => cases ha
  | cons b args ih =>
    simp only [argsDepend, Bool.or_eq_false_iff] at hd
    rcases List.mem_cons.mp ha with rfl | hmem
    . exact hd.1
    . exact ih hmem hd.2

theorem dependsOn_of_single_mem {n : Node} {items : List SetItem} (hn : .single n ∈ items)
    (hd : itemsDepend h items = false) : n.dependsOn h = false := by
  induction items with
  | nil => cases hn
  | cons i items ih =>
    rcases List.mem_cons.mp hn with rfl | hmem
    . simp only [itemsDepend, Bool.or_eq_false_iff] at hd
      exact hd.1
    . cases i <;> simp only [itemsDepend, Bool.or_eq_false_iff] at hd <;> exact ih hmem hd.2

theorem argDepends_of_splice_mem {a : SetArg} {items : List SetItem} (ha : .splice a ∈ items)
    (hd : itemsDepend h items = false) : argDepends h a = false := by
  induction items with
  | nil => cases ha
  | cons i items ih =>
    rcases List.mem_cons.mp ha with rfl | hmem
    . simp only [itemsDepend, Bool.or_eq_false_iff] at hd
      exact hd.1
    . cases i <;> simp only [itemsDepend, Bool.or_eq_false_iff] at hd <;> exact ih hmem hd.2

end Node

namespace EvalAt.Indifferent

theorem within_moved {α : Type} {h : Nat} {m : EvalAt α} (o : Overlay) (ho : o.KeepsEmpty)
    (hm : Indifferent (Context.MovedAlong h) m) :
    Indifferent (Context.MovedAlong h) (EvalMonad.within o m) :=
  within o (fun _ _ hR => hR.apply o ho) hm

end EvalAt.Indifferent

namespace Env

open EvalAt

variable {env : Env} {h : Nat}

theorem nativeOp_nativeOff (hoff : env.config.NativeOff) (ctx : Context) (plan : NativePlan)
    (required nonEmpty : Bool) :
    env.nativeOp ctx plan required nonEmpty =
      .error "native evaluation is disabled for this operator" := by
  obtain ⟨hcj, htc, hf⟩ := hoff
  unfold nativeOp
  cases plan.template <;> simp [hcj, htc, hf] <;> rfl

theorem attempt_nativeOff {R : Context → Context → Prop} (hoff : env.config.NativeOff) :
    ∀ fuel site nonEmpty, Indifferent R (env.attempt fuel site nonEmpty)
  | 0, _, _ => Indifferent.throw _
  | fuel + 1, site, nonEmpty => by
    simp only [Env.attempt]
    split
    . exact Indifferent.pure _
    . refine Indifferent.read (fun _ _ _ => ?_) (fun _ _ _ => ?_)
      . simp only [nativeOp_nativeOff hoff]
      . simp only [nativeOp_nativeOff hoff]
        exact Indifferent.pure _

theorem dispatch_nativeOff {R : Context → Context → Prop} (hoff : env.config.NativeOff) :
    ∀ fuel site nonEmpty, Indifferent R (env.dispatch fuel site nonEmpty)
  | 0, _, _ => Indifferent.throw _
  | fuel + 1, site, nonEmpty => by
    simp only [Env.dispatch]
    refine Indifferent.bind (attempt_nativeOff hoff fuel site nonEmpty) fun r => ?_
    split
    . exact Indifferent.pure _
    -- a plan that does not apply hands back nothing, or fails when it must apply
    split
    . exact Indifferent.pure _
    split
    . exact Indifferent.throw _
    . exact Indifferent.pure _

theorem currentMeasure?_eq (hmeasures : env.cube.measuresHierarchy? ≠ some h)
    {ctx₁ ctx₂ : Context} (hd : ctx₁.DiffersAt h ctx₂) : env.currentMeasure? ctx₂ = env.currentMeasure? ctx₁ := by
  unfold currentMeasure?
  cases hm : env.cube.measuresHierarchy? with
  | none => rfl
  | some k =>
    have hk : k ≠ h := fun hk => hmeasures (hk ▸ hm)
    simp only [Option.bind_some, hd.current? hk]

/-- At nesting bound `fuel`, every function of the evaluator computes the same from two contexts
moved along `h` when what it evaluates claims not to depend on `h`. -/
structure IgnoresAt (env : Env) (h fuel : Nat) : Prop where
  eval : ∀ node, node.dependsOn h = false →
    Indifferent (Context.MovedAlong h) (env.eval fuel node)
  evalSet : ∀ node style, node.dependsOn h = false →
    Indifferent (Context.MovedAlong h) (env.evalSet fuel node style)
  evalArg : ∀ arg, Node.argDepends h arg = false →
    Indifferent (Context.MovedAlong h) (env.evalArg fuel arg)
  collect : ∀ set v, Node.argDepends h set = false → v.dependsOn h = false →
    Indifferent (Context.MovedAlong h) (env.collect fuel set (some v))
  collectPairs : ∀ set y x, Node.argDepends h set = false → y.dependsOn h = false →
    Node.optDepends h x = false →
    Indifferent (Context.MovedAlong h) (env.collectPairs fuel set (some y) x)

theorem generateLimited_indifferent {R : Context → Context → Prop} (env : Env) (l : Limiter)
    (source : TupleSet) {each : Tuple → EvalAt TupleSet} (heach : ∀ t, Indifferent R (each t))
    (all : Bool) : Indifferent R (env.generateLimited l source each all) := by
  simp only [Env.generateLimited]
  refine .bind (.forIn_stream (fun t _ => ?_) _ _) fun _ => .pure _
  refine .bind (.liftEval _) fun _ => .bind (heach t) fun _ =>
    .bind (.forIn_list _ (fun _ _ _ => ?_) _) fun _ => .pure _
  -- each generated tuple is pushed, unless it was seen already and repeats are dropped
  split
  . exact .bind (.liftExcept _) fun _ => .pure _
  . split
    . exact .bind (.liftExcept _) fun _ => .pure _
    . exact .pure _

namespace IgnoresAt

/-! One level of each function computes the same from contexts moved along `h` when the level
below does: each case applies the rule of the operation it unfolds to, and the nodes that claim a
dependency do not reach these lemmas. -/

variable {fuel : Nat}

theorem eval_succ (hmeasures : env.cube.measuresHierarchy? ≠ some h) (ih : IgnoresAt env h fuel)
    (node : Node) (hdep : node.dependsOn h = false) :
    Indifferent (Context.MovedAlong h) (env.eval (fuel + 1) node) := by
  cases node <;> simp only [Env.eval]
  case const | memberConst => exact .pure _
  -- the nodes that read the context read what agrees between the two runs
  case currentMember k =>
    refine .read (fun c₁ c₂ hR => ?_) (fun _ _ _ => .pure _)
    simp only [hR.2.current? (by simpa [Node.dependsOn] using hdep)]
  case slicer => exact .read (fun c₁ c₂ hR => by simp only [hR.2.slicer_eq]) fun _ _ _ => .pure _
  case memberValue => simp [Node.dependsOn] at hdep
  -- a set node is evaluated as a set
  case levelMembers | children | enumerate | singleton | crossJoin | filter | topCount | head
    | order | generate =>
    exact .bind (ih.evalSet _ _ hdep) fun _ => .pure _
  -- one operand, converted and wrapped
  case parent m | memberName m | memberToTuple m | negate m | not m | truncate m | toText m =>
    exact .bind (ih.eval m hdep) fun _ => .bind (.liftExcept _) fun _ => .pure _
  case isEmpty m | format m _ => exact .bind (ih.eval m hdep) fun _ => .pure _
  case coerce m _ =>
    refine .bind (ih.eval m hdep) fun _ => ?_
    -- a conversion to one of four categories, or the value as it is
    split
    . exact .bind (.liftExcept _) fun _ => .pure _
    . exact .bind (.liftExcept _) fun _ => .pure _
    . exact .bind (.liftExcept _) fun _ => .pure _
    . exact .bind (.liftExcept _) fun _ => .pure _
    . exact .pure _
  case arith _ l r =>
    simp only [Node.dependsOn, Bool.or_eq_false_iff] at hdep
    refine .bind (ih.eval l hdep.1) fun _ => .bind (.liftExcept _) fun _ => ?_
    split
    . exact .pure _
    . exact .bind (ih.eval r hdep.2) fun _ => .bind (.liftExcept _) fun _ =>
        .bind (.liftExcept _) fun _ => .pure _
  case compare _ l r =>
    simp only [Node.dependsOn, Bool.or_eq_false_iff] at hdep
    exact .bind (ih.eval l hdep.1) fun _ => .bind (ih.eval r hdep.2) fun _ => .liftExcept _
  case logical _ l r =>
    simp only [Node.dependsOn, Bool.or_eq_false_iff] at hdep
    refine .bind (ih.eval l hdep.1) fun _ => .bind (.liftExcept _) fun _ => ?_
    split
    . exact .pure _
    . exact .bind (ih.eval r hdep.2) fun _ => .bind (.liftExcept _) fun _ => .pure _
  case formatWith v p =>
    simp only [Node.dependsOn, Bool.or_eq_false_iff] at hdep
    exact .bind (ih.eval v hdep.1) fun _ => .bind (ih.eval p hdep.2) fun _ =>
      .bind (.liftExcept _) fun _ => .pure _
  case iif c t e _ =>
    simp only [Node.dependsOn, Bool.or_eq_false_iff] at hdep
    refine .bind (ih.eval c hdep.1.1) fun _ => .bind (.liftExcept _) fun _ => ?_
    split
    . exact ih.eval t hdep.1.2
    . exact ih.eval e hdep.2
  case tuple ms =>
    refine .bind (.forIn_list ms (fun n hn _ => ?_) _) fun _ => .pure _
    refine .bind (ih.eval n (Node.dependsOn_of_mem hn hdep)) fun _ => .bind (.liftExcept _) fun _ => ?_
    split
    . exact .bind (.throw _) fun _ => .pure _
    . exact .pure _
  case coalesce ms _ =>
    refine .bind (.forIn_list ms (fun n hn _ =>
      .bind (ih.eval n (Node.dependsOn_of_mem hn hdep)) fun _ => ?_) _) fun _ => ?_
    . split
      . exact .pure _
      . exact .pure _
    . split
      . exact .pure _
      . exact .pure _
  -- an aggregate without a value reads the cells, and claims every dependency
  case sum set v =>
    cases v with
    | none => simp [Node.dependsOn] at hdep
    | some v =>
      simp only [Node.dependsOn, Bool.or_eq_false_iff] at hdep
      refine .bind (ih.collect set v hdep.1 hdep.2) fun _ => ?_
      split
      . exact .pure _
      split
      . exact .pure _
      . exact .pure _
  case avg set v | dispersion set v _ _ =>
    cases v with
    | none => simp [Node.dependsOn] at hdep
    | some v =>
      simp only [Node.dependsOn, Bool.or_eq_false_iff] at hdep
      exact .bind (ih.collect set v hdep.1 hdep.2) fun _ => .pure _
  case extremum set v _ =>
    cases v with
    | none => simp [Node.dependsOn] at hdep
    | some v =>
      simp only [Node.dependsOn, Bool.or_eq_false_iff] at hdep
      refine .bind (ih.collect set v hdep.1 hdep.2) fun _ => ?_
      split
      . exact .pure _
      . exact .pure _
  case aggregate set v =>
    cases v with
    | none => simp [Node.dependsOn] at hdep
    | some v =>
      simp only [Node.dependsOn, Bool.or_eq_false_iff] at hdep
      -- the aggregator of the current measure, which the two contexts share
      refine .read (fun c₁ c₂ hR => by simp only [currentMeasure?_eq hmeasures hR.2])
        (fun _ _ _ => .bind (ih.collect set v hdep.1 hdep.2) fun _ => ?_)
      split
      . exact .pure _
      . exact .pure _
  case percentile set v p =>
    cases v with
    | none => simp [Node.dependsOn] at hdep
    | some v =>
      simp only [Node.dependsOn, Bool.or_eq_false_iff] at hdep
      obtain ⟨⟨hset, hv⟩, hp⟩ := hdep
      -- the share is read first, from the percent operand when there is one
      cases p
      case' none => refine .bind (.pure _) fun _ => ?_
      case' some p =>
        refine .bind (ih.eval p (by simpa only [Node.optDepends] using hp)) fun _ =>
          .bind (.liftExcept _) fun _ => .bind (.pure _) fun _ => ?_
      all_goals
        split
        . exact .pure _
        . exact .bind (ih.collect set v hset hv) fun _ => .pure _
  case regression _ point set y x =>
    simp only [Node.dependsOn, Bool.or_eq_false_iff] at hdep
    obtain ⟨⟨⟨hset, hy⟩, hx⟩, hpoint⟩ := hdep
    -- the forecast point is read first, when there is one, and the fit is made after it
    cases point
    case' some p =>
      refine .bind (ih.eval p (by simpa only [Node.optDepends] using hpoint)) fun _ =>
        .bind (.liftExcept _) fun _ => ?_
      split
    all_goals
      refine .bind (.pure _) fun _ => ?_
      split
      . exact .pure _
      refine .bind (ih.collectPairs set y x hset hy hx) fun _ => ?_
      split
      . exact .pure _
      . exact .pure _
  case pairwise _ set x y =>
    cases y with
    | none => simp [Node.dependsOn] at hdep
    | some y =>
      simp only [Node.dependsOn, Bool.or_eq_false_iff] at hdep
      obtain ⟨⟨hset, hx⟩, hy⟩ := hdep
      refine .bind (ih.collectPairs set y (some x) hset hy (by simpa only [Node.optDepends] using hx))
        fun _ => ?_
      split
      . exact .pure _
      . exact .pure _
  -- counting the tuples without the empty ones reads the cells
  case count set exclude =>
    cases exclude with
    | true => simp [Node.dependsOn] at hdep
    | false =>
      simp only [Node.dependsOn, Bool.false_or] at hdep
      simp only [Bool.not_false, if_true]
      exact .bind (.within_moved _ rfl (ih.evalArg set hdep)) fun _ => .pure _

theorem evalSet_succ (hoff : env.config.NativeOff) (ih : IgnoresAt env h fuel) (node : Node)
    (style : ResultStyle) (hdep : node.dependsOn h = false) :
    Indifferent (Context.MovedAlong h) (env.evalSet (fuel + 1) node style) := by
  cases node <;> simp only [Env.evalSet]
  case levelMembers => exact .bind (.liftExcept _) fun _ => .pure _
  case slicer => exact .read (fun c₁ c₂ hR => by simp only [hR.2.slicer_eq]) fun _ _ _ => .pure _
  case children m =>
    refine .bind (ih.eval m hdep) fun _ => ?_
    split
    . exact .pure _
    . exact .pure _
    . exact .throw _
  case singleton m =>
    refine .bind (ih.eval m hdep) fun _ => ?_
    split
    . exact .pure _
    . exact .pure _
    . exact .pure _
    . exact .throw _
  case enumerate items _ =>
    refine .bind (.forIn_list items (fun item hitem _ => ?_) _) fun _ => .pure _
    -- an item is one node's member or tuple, or a spliced set
    split
    . next n =>
      refine .bind (ih.eval n (Node.dependsOn_of_single_mem hitem hdep)) fun _ => ?_
      split
      . exact .pure _
      . exact .pure _
      . exact .pure _
      . exact .bind (.throw _) fun _ => .pure _
    . next a =>
      exact .bind (ih.evalArg a (Node.argDepends_of_splice_mem hitem hdep)) fun _ =>
        .bind (.forIn_stream (fun _ _ => .pure _) _ _) fun _ => .pure _
  case crossJoin args site force =>
    cases force with
    | true => simp [Node.dependsOn] at hdep
    | false =>
      simp only [Node.dependsOn, Bool.false_or] at hdep
      simp only [Bool.false_or]
      refine .read (fun c₁ c₂ hR => by simp only [hR.2.nonEmpty_eq]) (fun c₁ c₂ hR => ?_)
      -- empty tuples are kept, so the cells are never read
      simp only [hR.1, Bool.not_false, if_true]
      refine .bind (dispatch_nativeOff hoff _ _ _) fun _ => ?_
      split
      . exact .pure _
      refine .bind (.forIn_list args (fun a ha _ =>
        .bind (ih.evalArg a (Node.argDepends_of_mem ha hdep)) fun _ => .pure _) _) fun _ => ?_
      -- a bound on the product, then the product lazily or walked
      split
      case' isTrue => refine .bind (.throw _) fun _ => ?_
      all_goals
        split
        . exact .pure _
        . exact .bind (.forIn_stream (fun _ _ => .bind (.liftEval _) fun _ => .pure _) _ _)
            fun _ => .pure _
  case filter set c site =>
    simp only [Node.dependsOn, Bool.or_eq_false_iff] at hdep
    refine .bind (dispatch_nativeOff hoff _ _ _) fun _ => ?_
    split
    . exact .pure _
    refine .bind (ih.evalArg set hdep.1) fun _ =>
      .bind (.forIn_stream (fun _ _ => ?_) _ _) fun _ => .pure _
    refine .bind (.liftEval _) fun _ => .bind (.within_moved _ trivial (.bind (ih.eval c hdep.2)
      fun _ => .bind (.liftExcept _) fun _ => .pure _)) fun _ => ?_
    split
    . exact .pure _
    . exact .pure _
  case topCount set k measure site _ =>
    cases measure with
    | none => simp [Node.dependsOn] at hdep
    | some m =>
      simp only [Node.dependsOn, Bool.or_eq_false_iff] at hdep
      obtain ⟨⟨hset, hk⟩, hm⟩ := hdep
      dsimp only
      -- the native site first, when there is one
      split
      case' h_1 => refine .bind (dispatch_nativeOff hoff _ _ _) fun _ => ?_
      case' h_2 => refine .bind (.pure _) fun _ => ?_
      all_goals
        split
        . exact .pure _
        refine .bind (ih.eval k hk) fun _ => .bind (.liftExcept _) fun _ =>
          .bind (ih.evalArg set hset) fun _ => .bind (.forIn_list _ (fun _ _ _ => ?_) _) fun _ => .pure _
        exact .bind (.liftEval _) fun _ => .bind (.within_moved _ trivial
          (.bind (ih.eval m hm) fun _ => .liftExcept _)) fun _ => .pure _
  case head set k =>
    simp only [Node.dependsOn, Bool.or_eq_false_iff] at hdep
    obtain ⟨hset, hk⟩ := hdep
    -- the count first, when there is one
    split
    case' h_1 k =>
      refine .bind (ih.eval k (by simpa only [Node.optDepends] using hk)) fun _ =>
        .bind (.liftExcept _) fun _ => ?_
    all_goals
      refine .bind (.pure _) fun _ => .bind (ih.evalArg set hset) fun _ => ?_
      split
      . exact .pure _
      . exact .pure _
  case order set key _ =>
    simp only [Node.dependsOn, Bool.or_eq_false_iff] at hdep
    refine .bind (ih.evalArg set hdep.1) fun _ => .bind (.forIn_list _ (fun _ _ _ => ?_) _) fun _ =>
      .pure _
    exact .bind (.liftEval _) fun _ => .bind (.within_moved _ trivial (ih.eval key hdep.2)) fun _ =>
      .pure _
  case generate source each all =>
    simp only [Node.dependsOn, Bool.or_eq_false_iff] at hdep
    exact .bind (ih.evalArg source hdep.1) fun _ => .bind (generateLimited_indifferent env _ _
      (fun t => .within_moved (.tuple t) trivial (ih.evalArg each hdep.2)) all) fun _ => .pure _
  -- every other node is a value, which has to be a set
  all_goals
    refine .bind (ih.eval _ hdep) fun _ => ?_
    split
    . exact .pure _
    . exact .pure _
    . exact .throw _

theorem evalArg_succ (ih : IgnoresAt env h fuel) (arg : SetArg) (hdep : Node.argDepends h arg = false) :
    Indifferent (Context.MovedAlong h) (env.evalArg (fuel + 1) arg) := by
  cases arg
  simp only [Env.evalArg]
  exact .bind (ih.evalSet _ _ hdep) fun _ => .pure _

theorem collect_succ (ih : IgnoresAt env h fuel) (set : SetArg) (v : Node)
    (hset : Node.argDepends h set = false) (hv : v.dependsOn h = false) :
    Indifferent (Context.MovedAlong h) (env.collect (fuel + 1) set (some v)) := by
  simp only [Env.collect]
  refine .within_moved _ rfl (.bind (ih.evalArg set hset) fun _ =>
    .bind (.forIn_stream (fun _ _ => ?_) _ _) fun _ => .pure _)
  refine .bind (.liftEval _) fun _ => .bind (.within_moved _ trivial
    (.bind (ih.eval v hv) fun _ => .liftExcept _)) fun _ => ?_
  split
  . exact .pure _
  . exact .pure _

theorem collectPairs_succ (ih : IgnoresAt env h fuel) (set : SetArg) (y : Node) (x : Option Node)
    (hset : Node.argDepends h set = false) (hy : y.dependsOn h = false)
    (hx : Node.optDepends h x = false) :
    Indifferent (Context.MovedAlong h) (env.collectPairs (fuel + 1) set (some y) x) := by
  simp only [Env.collectPairs]
  refine .within_moved _ rfl (.bind (ih.evalArg set hset) fun _ =>
    .bind (.forIn_stream (fun _ _ => ?_) _ _) fun _ => .pure _)
  refine .bind (.liftEval _) fun _ => .bind (.within_moved _ trivial ?_) fun _ => ?_
  . -- the second coordinate is y's number, the first x's or else the position
    refine .bind (ih.eval y hy) fun _ => .bind (.liftExcept _) fun _ => ?_
    cases x with
    | none => exact .bind (.pure _) fun _ => .pure _
    | some x =>
      exact .bind (ih.eval x (by simpa only [Node.optDepends] using hx)) fun _ =>
        .bind (.liftExcept _) fun _ => .pure _
  . split
    . exact .pure _
    . exact .pure _

theorem succ (hoff : env.config.NativeOff) (hmeasures : env.cube.measuresHierarchy? ≠ some h)
    (ih : IgnoresAt env h fuel) : IgnoresAt env h (fuel + 1) :=
  ⟨ih.eval_succ hmeasures, ih.evalSet_succ hoff, ih.evalArg_succ, ih.collect_succ,
    ih.collectPairs_succ⟩

end IgnoresAt

theorem ignoresAt (hoff : env.config.NativeOff) (hmeasures : env.cube.measuresHierarchy? ≠ some h) :
    ∀ fuel, IgnoresAt env h fuel
  | 0 => by
    refine ⟨fun _ _ => ?_, fun _ _ _ => ?_, fun _ _ => ?_, fun _ _ _ _ => ?_,
      fun _ _ _ _ _ _ => ?_⟩
    all_goals simp only [Env.eval, Env.evalSet, Env.evalArg, Env.collect, Env.collectPairs]
    all_goals exact Indifferent.throw _
  | fuel + 1 => (ignoresAt hoff hmeasures fuel).succ hoff hmeasures

end Env

namespace EvalOn

theorem Agrees.runOn_eq {α : Type} {m : EvalOn α} {r : EvalAt α} (hagree : Agrees m r)
    {ev₁ ev₂ : Evaluator} (hwf₁ : ev₁.WF) (hwf₂ : ev₂.WF) (hr : r.run ev₁.ctx = r.run ev₂.ctx) :
    m.runOn ev₁ = m.runOn ev₂ := by
  unfold runOn
  congr
  funext c
  obtain ⟨ev₁', h₁, -⟩ := hagree ev₁ c hwf₁
  obtain ⟨ev₂', h₂, -⟩ := hagree ev₂ c hwf₂
  simp only [h₁, h₂, hr]

end EvalOn

namespace Env

variable {env : Env} {h : Nat}

/-- Dependency analysis is sound for evaluations that keep empty tuples and delegate nothing:
a node that claims not to depend on hierarchy `h`, other than the measures hierarchy, gives the
same value or error, with the same counts, on two evaluators whose contexts differ at most in the
current member of `h`; and so does a set node. -/
theorem independent_node_ignores_member (hoff : env.config.NativeOff)
    (hmeasures : env.cube.measuresHierarchy? ≠ some h) {ev₁ ev₂ : Evaluator} (hwf₁ : ev₁.WF)
    (hwf₂ : ev₂.WF) (hkeep : ev₁.ctx.nonEmpty = false) (hdiff : ev₁.ctx.DiffersAt h ev₂.ctx)
    (fuel : Nat) :
    (∀ node, node.dependsOn h = false →
      (env.eval fuel node : EvalOn Value).runOn ev₁ = (env.eval fuel node : EvalOn Value).runOn ev₂) ∧
    ∀ node style, node.dependsOn h = false →
      (env.evalSet fuel node style : EvalOn TupleSet).runOn ev₁ =
        (env.evalSet fuel node style : EvalOn TupleSet).runOn ev₂ := by
  have hR : ev₁.ctx.MovedAlong h ev₂.ctx := ⟨hkeep, hdiff⟩
  have hign := ignoresAt hoff hmeasures fuel
  constructor
  . intro node hdep
    exact ((EvalOn.agreesAt env fuel).eval node).runOn_eq hwf₁ hwf₂ (hign.eval node hdep _ _ hR)
  . intro node style hdep
    exact ((EvalOn.agreesAt env fuel).evalSet node style).runOn_eq hwf₁ hwf₂
      (hign.evalSet node style hdep _ _ hR)

theorem independent_node_ignores_member_product :
    let sales := Member.measure 0 "Sales" .sum 0
    let all := Member.all 1 "Product"
    let drink := all.child "Drink" 0
    let cube : Cube := ⟨[.mk 0 "Measures" ["MeasuresLevel"] sales true false,
      .mk 1 "Product" ["(All)", "Category"] all false false], [sales], [[[sales]], [[all], [drink]]],
      [(all.uniqueName, [drink])], [], true⟩
    let env : Env := ⟨cube, FunctionTable.builtins, EngineConfig.interpretedOnly, false, false⟩
    let ev := Evaluator.new cube 0
    env.config.NativeOff ∧ env.cube.measuresHierarchy? ≠ some 1 ∧ ev.WF ∧
      (ev.setContext drink).WF ∧ ev.ctx.nonEmpty = false ∧
      ev.ctx.DiffersAt 1 (ev.setContext drink).ctx ∧
      ((∀ node, node.dependsOn 1 = false →
        (env.eval evalFuel node : EvalOn Value).runOn ev =
          (env.eval evalFuel node : EvalOn Value).runOn (ev.setContext drink)) ∧
      ∀ node style, node.dependsOn 1 = false →
        (env.evalSet evalFuel node style : EvalOn TupleSet).runOn ev =
          (env.evalSet evalFuel node style : EvalOn TupleSet).runOn (ev.setContext drink)) := by
  intro sales all drink cube env ev
  have hcube : ∀ i (h : Hierarchy), cube.hierarchies[i]? = some h →
      h.defaultMember.hierarchy = i := by
    intro i h hh
    rcases i with _ | _ | i
    . simp only [cube, List.getElem?_cons_zero, Option.some.injEq] at hh
      subst hh
      rfl
    . simp only [cube, List.getElem?_cons_succ, List.getElem?_cons_zero, Option.some.injEq] at hh
      subst hh
      rfl
    . simp [cube] at hh
  have hoff : env.config.NativeOff := ⟨rfl, rfl, rfl⟩
  have hmeasures : env.cube.measuresHierarchy? ≠ some 1 := by decide
  have hwf : ev.WF := Evaluator.new_wf hcube 0
  have hwf' : (ev.setContext drink).WF := (Evaluator.keeps_setContext hwf drink).wf
  have hdiff : ev.ctx.DiffersAt 1 (ev.setContext drink).ctx := by
    rw [Evaluator.setContext_ctx]
    exact ev.ctx.differsAt_setMember drink
  exact ⟨hoff, hmeasures, hwf, hwf', rfl, hdiff,
    independent_node_ignores_member hoff hmeasures hwf hwf' rfl hdiff evalFuel⟩

end Env

namespace Service

/-- For a set request: whether its compiled set claims to depend on hierarchy `h`, and its tuples
by unique names, evaluated in non-empty mode at the request's context. -/
def nonEmptyRowsClaiming (req : Json) (h : Nat) : Option (Bool × List (List String)) := do
  let s ← (setupOf req).toOption
  let e ← (s.exp ((req.get? "exp").getD .null)).toOption
  let accepts ← (acceptsOf req).toOption
  let ev ← (evaluatorOf s req).toOption
  let arg ← (FunctionTable.builtins.compileSet e accepts).toOption
  let env := s.env FunctionTable.builtins (plainBackend req) false
  let set ← (runEval ((env.setValue arg : EvalOn TupleSet).runOn (ev.setNonEmpty true))).1.toOption
  pure (arg.node.dependsOn h, set.toList.map fun t => t.map (·.uniqueName))

/-- `CrossJoin([Product].[Category].Members, [Time].[Year].Members)` on the sales cube, at the
context `members`. -/
def categoryYearRequest (members : List String) : Json :=
  .obj [("op", .str "set"),
    ("exp", .obj [("f", .str "CrossJoin"),
      ("args", .arr [levelMembersJson "Product" "Category", levelMembersJson "Time" "Year"])]),
    ("context", .arr (members.map .str))]

end Service

/-- In non-empty mode a cross join reads the cells of its tuples, so the current member of every
hierarchy, while it claims to depend on none: moving the store (hierarchy 2) from the `All`
member to Portland, which has no sales, empties it. -/
theorem crossJoin_nonEmpty_reads_store :
    Service.nonEmptyRowsClaiming (Service.categoryYearRequest []) 2 =
        some (false, [["[Product].[All].[Drink]", "[Time].[All].[2024]"],
          ["[Product].[All].[Food]", "[Time].[All].[2023]"],
          ["[Product].[All].[Food]", "[Time].[All].[2024]"],
          ["[Product].[All].[NonFood]", "[Time].[All].[2023]"]]) ∧
      Service.nonEmptyRowsClaiming
          (Service.categoryYearRequest ["[Store].[All].[OR].[Portland]"]) 2 = some (false, []) :=
  ⟨by decide +kernel, by decide +kernel⟩

end OlapCalc
