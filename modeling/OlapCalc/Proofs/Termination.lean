import Mathlib
import OlapCalc.Proofs.Settling

/-!
Evaluation terminates.

The evaluator recurses on a nesting bound, and nothing in its recursion is structural: a cell
enters the formula of a calculated member, which is another node; a native site resolves its
context by evaluating the set of an aggregate member of the coordinate, under a widened slicer.
Three things bound the recursion together. A calculated member is entered one level deeper,
and a cell fails once the depth reaches `maxEvalDepth`. A native site pushes its key onto the
keys being resolved, and fails when it is already there. Between the two, the evaluator walks
down the node it was given. Every node it can meet is the node it started from or the formula
of a member of a finite universe (`Env.Universe`), so the native keys are finitely many and the
formulas are of bounded size (`Env.Bounds`).

The lexicographic measure (depth left, keys not being resolved, size of the node) is read off
as one number (`Bounds.base` and the costs of each function), and each function at nesting
bound `k + 1` is compared with itself at `k + 2` whenever its cost is at most `k + 1`
(`Bounds.SettlesAt`): every call it makes costs less, so the calls compare one level down. From
a node's cost on, more fuel changes nothing and the run never fails for lack of it.
-/

namespace OlapCalc

/-! ## Native sites of nodes -/

/-- The operators `eval` hands over to `evalSet`. -/
def Node.isSetOperator : Node → Bool
  | .levelMembers _ | .children _ | .enumerate .. | .singleton _ | .crossJoin .. | .filter ..
  | .topCount .. | .head .. | .order .. | .generate .. => true
  | _ => false

mutual

/-- The native sites of a node's set operators. -/
def Node.sites : Node → List NativeSite
  | .const .. | .memberConst _ | .currentMember _ | .levelMembers _ | .slicer _ => []
  | .parent n | .memberName n | .memberToTuple n | .negate n | .not n | .isEmpty n
  | .format n _ | .coerce n _ | .truncate n | .toText n | .memberValue n | .children n
  | .singleton n => Node.sites n
  | .tuple ns | .coalesce ns _ => Node.sitesAll ns
  | .arith _ l r | .compare _ l r | .logical _ l r | .formatWith l r => Node.sites l ++ Node.sites r
  | .iif c t e _ => Node.sites c ++ Node.sites t ++ Node.sites e
  | .enumerate items _ => Node.itemSites items
  | .crossJoin args site _ => Node.argsSites args ++ [site]
  | .filter set c site => Node.argSites set ++ Node.sites c ++ [site]
  | .topCount set k m site _ => Node.argSites set ++ Node.sites k ++ Node.optSites m ++ site.toList
  | .head set k => Node.argSites set ++ Node.optSites k
  | .order set key _ => Node.argSites set ++ Node.sites key
  | .generate source each _ => Node.argSites source ++ Node.argSites each
  | .sum set v | .avg set v | .extremum set v _ | .dispersion set v _ _ | .aggregate set v =>
    Node.argSites set ++ Node.optSites v
  | .percentile set v p => Node.argSites set ++ Node.optSites v ++ Node.optSites p
  | .regression _ point set y x =>
    Node.optSites point ++ Node.argSites set ++ Node.sites y ++ Node.optSites x
  | .pairwise _ set x y => Node.argSites set ++ Node.sites x ++ Node.optSites y
  | .count set _ => Node.argSites set

def Node.sitesAll : List Node → List NativeSite
  | [] => []
  | n :: rest => Node.sites n ++ Node.sitesAll rest

def Node.optSites : Option Node → List NativeSite
  | none => []
  | some n => Node.sites n

def Node.argSites : SetArg → List NativeSite
  | .mk n _ => Node.sites n

def Node.argsSites : List SetArg → List NativeSite
  | [] => []
  | a :: rest => Node.argSites a ++ Node.argsSites rest

def Node.itemSites : List SetItem → List NativeSite
  | [] => []
  | .single n :: rest => Node.sites n ++ Node.itemSites rest
  | .splice a :: rest => Node.argSites a ++ Node.itemSites rest

end

namespace Node

theorem subset_membersAll {n : Node} {ns : List Node} (h : n ∈ ns) : n.members ⊆ Node.membersAll ns :=
  membersAll_subset.mp (List.Subset.refl _) n h

theorem subset_sitesAll {n : Node} : ∀ {ns : List Node}, n ∈ ns → n.sites ⊆ Node.sitesAll ns
  | _ :: rest, h => by
    rcases List.mem_cons.mp h with rfl | h
    . exact List.subset_append_left _ _
    . exact List.Subset.trans (subset_sitesAll h) (List.subset_append_right _ _)

theorem subset_argsMembers {a : SetArg} {args : List SetArg} (h : a ∈ args) :
    Node.argMembers a ⊆ Node.argsMembers args :=
  argsMembers_subset.mp (List.Subset.refl _) a h

theorem subset_argsSites {a : SetArg} : ∀ {args : List SetArg}, a ∈ args → Node.argSites a ⊆ Node.argsSites args
  | _ :: rest, h => by
    rcases List.mem_cons.mp h with rfl | h
    . exact List.subset_append_left _ _
    . exact List.Subset.trans (subset_argsSites h) (List.subset_append_right _ _)

theorem subset_itemMembers {it : SetItem} {items : List SetItem} (h : it ∈ items) :
    Node.itemMembers [it] ⊆ Node.itemMembers items :=
  itemMembers_subset.mp (List.Subset.refl _) it h

theorem subset_itemSites {it : SetItem} : ∀ {items : List SetItem}, it ∈ items →
    Node.itemSites [it] ⊆ Node.itemSites items
  | it' :: rest, h => by
    rcases List.mem_cons.mp h with rfl | h
    . cases it <;> simp [Node.itemSites]
    . refine List.Subset.trans (subset_itemSites h) ?_
      cases it' <;> simp [Node.itemSites]

theorem aggregatedSet_eq_some {n : Node} {set : SetArg} (h : n.aggregatedSet = some set) :
    ∃ v, n = .aggregate set v := by
  cases n <;> simp only [aggregatedSet, reduceCtorEq, Option.some.injEq] at h
  exact ⟨_, by rw [h]⟩

end Node

/-! ## Bounds of an evaluation -/

namespace Env

/-- A universe together with what entering its calculated members can cost: the keys of the
native sites their formulas carry, and a bound on the size of those formulas. -/
structure Bounds (env : Env) extends env.Universe where
  keys : List String
  size : Nat
  formula_keys : ∀ m ∈ members, ∀ n, env.formula? m = some n → ∀ s ∈ n.sites, s.key ∈ keys
  formula_size : ∀ m ∈ members, ∀ n, env.formula? m = some n → sizeOf n ≤ size

namespace Bounds

variable {env : Env} (B : env.Bounds)

/-- Members of the universe and native sites of known keys. -/
def Names (ms : List Member) (ss : List NativeSite) : Prop :=
  ms ⊆ B.members ∧ ∀ s ∈ ss, s.key ∈ B.keys

/-- The native keys not being resolved in a context. -/
def spare (ctx : Context) : Nat := (B.keys.filter fun k => !ctx.resolving.contains k).length

/-- What one native key is worth: more than any formula of the universe costs to walk. -/
def weight : Nat := 8 * B.size + 8

/-- What is left to spend in a context: each calculated-member level left is worth a level of
every native key, and each key not being resolved is worth a walk of any formula. -/
def base (ctx : Context) : Nat :=
  (env.config.maxEvalDepth - ctx.depth) * ((B.keys.length + 1) * B.weight) + B.spare ctx * B.weight

/-- The cost of evaluating a node: more for a set operator, which is handed to `evalSet`. -/
noncomputable def evalCost (ctx : Context) (n : Node) : Nat :=
  B.base ctx + 8 * sizeOf n + if n.isSetOperator then 4 else 3

/-- The cost of evaluating a set node: more for a node that is handed to `eval`. -/
noncomputable def setCost (ctx : Context) (n : Node) : Nat :=
  B.base ctx + 8 * sizeOf n + if n.isSetOperator then 3 else 4

variable {B}

theorem Names.mono {ms ms' : List Member} {ss ss' : List NativeSite} (h : B.Names ms ss)
    (hm : ms' ⊆ ms) (hs : ss' ⊆ ss) : B.Names ms' ss' :=
  ⟨List.Subset.trans hm h.1, fun s hsite => h.2 s (hs hsite)⟩

theorem Names.append_left {ms₁ ms₂ : List Member} {ss₁ ss₂ : List NativeSite}
    (h : B.Names (ms₁ ++ ms₂) (ss₁ ++ ss₂)) : B.Names ms₁ ss₁ :=
  h.mono (List.subset_append_left _ _) (List.subset_append_left _ _)

theorem Names.append_right {ms₁ ms₂ : List Member} {ss₁ ss₂ : List NativeSite}
    (h : B.Names (ms₁ ++ ms₂) (ss₁ ++ ss₂)) : B.Names ms₂ ss₂ :=
  h.mono (List.subset_append_right _ _) (List.subset_append_right _ _)

theorem evalCost_le {ctx : Context} {n : Node} {k : Nat} (h : B.base ctx + 8 * sizeOf n + 4 ≤ k) :
    B.evalCost ctx n ≤ k := by
  unfold evalCost
  split <;> omega

theorem formula_names {m : Member} (hm : m ∈ B.members) {n : Node} (h : env.formula? m = some n) :
    B.Names n.members n.sites :=
  ⟨B.formula_subset m hm n h, B.formula_keys m hm n h⟩

@[simp] theorem setTuple_depth (ctx : Context) (t : Tuple) : (ctx.setTuple t).depth = ctx.depth := by
  induction t generalizing ctx with
  | nil => rfl
  | cons m t ih =>
    rw [Context.setTuple, List.foldl_cons, ← Context.setTuple, ih]
    unfold Context.setMember
    split <;> rfl

@[simp] theorem setTuple_resolving (ctx : Context) (t : Tuple) :
    (ctx.setTuple t).resolving = ctx.resolving := by
  induction t generalizing ctx with
  | nil => rfl
  | cons m t ih =>
    rw [Context.setTuple, List.foldl_cons, ← Context.setTuple, ih]
    unfold Context.setMember
    split <;> rfl

@[simp] theorem widenSlicer_depth (ctx : Context) (hs : List Nat) :
    (ctx.widenSlicer hs).depth = ctx.depth := by
  unfold Context.widenSlicer
  split <;> rfl

@[simp] theorem widenSlicer_resolving (ctx : Context) (hs : List Nat) :
    (ctx.widenSlicer hs).resolving = ctx.resolving := by
  unfold Context.widenSlicer
  split <;> rfl

/-- Overlays change neither the depth nor the keys being resolved. -/
@[simp] theorem base_apply (ctx : Context) (o : Overlay) : B.base (o.apply ctx) = B.base ctx := by
  cases o <;> simp only [base, spare, Overlay.apply, setTuple_depth, setTuple_resolving,
    widenSlicer_depth, widenSlicer_resolving]

theorem base_deeper {ctx : Context} (h : ctx.depth < env.config.maxEvalDepth) :
    B.base { ctx with depth := ctx.depth + 1 } + B.weight ≤ B.base ctx := by
  have hlevels : env.config.maxEvalDepth - ctx.depth = (env.config.maxEvalDepth - (ctx.depth + 1)) + 1 := by
    omega
  have hkeys : B.weight ≤ (B.keys.length + 1) * B.weight := Nat.le_mul_of_pos_left _ (Nat.succ_pos _)
  simp only [base, spare]
  generalize (B.keys.length + 1) * B.weight = X at hkeys ⊢
  rw [hlevels, Nat.add_mul, Nat.one_mul]
  omega

theorem spare_push {ctx : Context} {key : String} (hkey : key ∈ B.keys)
    (hfresh : ctx.resolving.contains key = false) :
    B.spare { ctx with resolving := ctx.resolving ++ [key] } + 1 ≤ B.spare ctx := by
  simp only [spare]
  -- the keys left after the push are those left before, but for `key`
  have hsub : List.Sublist (B.keys.filter fun k => !(ctx.resolving ++ [key]).contains k)
      (B.keys.filter fun k => !ctx.resolving.contains k) :=
    List.monotone_filter_right _ fun k hk => by simp_all
  have hmem : key ∈ B.keys.filter fun k => !ctx.resolving.contains k := by simp_all
  have hnot : key ∉ B.keys.filter fun k => !(ctx.resolving ++ [key]).contains k := by simp
  refine Nat.lt_of_le_of_ne hsub.length_le fun heq => hnot ?_
  rw [hsub.eq_of_length heq]
  exact hmem

theorem base_resolving {ctx : Context} {key : String} (hkey : key ∈ B.keys)
    (hfresh : ctx.resolving.contains key = false) :
    B.base { ctx with resolving := ctx.resolving ++ [key] } + B.weight ≤ B.base ctx := by
  have hspare := Nat.mul_le_mul_right B.weight (spare_push hkey hfresh)
  simp only [base]
  rw [Nat.add_mul, Nat.one_mul] at hspare
  omega

theorem aggregate_names {m : Member} (hm : m ∈ B.members) {node : Node}
    (hnode : env.formula? m = some node) {set : SetArg} (hset : node.aggregatedSet = some set) :
    B.Names (Node.argMembers set) (Node.argSites set) ∧ sizeOf set < B.size := by
  obtain ⟨v, rfl⟩ := Node.aggregatedSet_eq_some hset
  have hnames := formula_names hm hnode
  have hsize := B.formula_size m hm _ hnode
  simp only [Node.members, Node.sites, Node.aggregate.sizeOf_spec] at hnames hsize
  exact ⟨hnames.append_left, by omega⟩

/-! ## Each function settles one level up -/

open EvalAt

variable (B) in
/-- At nesting bound `k`, every function of the evaluator that costs at most `k` settles against
itself one level higher, from a context the universe covers, on nodes that name members of the
universe and carry sites of known keys. -/
structure SettlesAt (k : Nat) : Prop where
  cellValue : ∀ ctx, B.Covers ctx → B.base ctx + 1 ≤ k →
    Settles ctx (env.cellValue k) (env.cellValue (k + 1))
  isEmptyCell : ∀ ctx, B.Covers ctx → B.base ctx + 2 ≤ k →
    Settles ctx (env.isEmptyCell k) (env.isEmptyCell (k + 1))
  eval : ∀ ctx n, B.Covers ctx → B.Names n.members n.sites → B.evalCost ctx n ≤ k →
    Settles ctx (env.eval k n) (env.eval (k + 1) n)
  evalSet : ∀ ctx n style, B.Covers ctx → B.Names n.members n.sites → B.setCost ctx n ≤ k →
    Settles ctx (env.evalSet k n style) (env.evalSet (k + 1) n style)
  evalArg : ∀ ctx a, B.Covers ctx → B.Names (Node.argMembers a) (Node.argSites a) →
    B.base ctx + 8 * sizeOf a + 1 ≤ k → Settles ctx (env.evalArg k a) (env.evalArg (k + 1) a)
  collect : ∀ ctx set v, B.Covers ctx →
    B.Names (Node.argMembers set ++ Node.optMembers v) (Node.argSites set ++ Node.optSites v) →
    B.base ctx + 8 * (sizeOf set + sizeOf v) + 2 ≤ k →
    Settles ctx (env.collect k set v) (env.collect (k + 1) set v)
  collectPairs : ∀ ctx set y x, B.Covers ctx →
    B.Names (Node.argMembers set ++ Node.optMembers y ++ Node.optMembers x)
      (Node.argSites set ++ Node.optSites y ++ Node.optSites x) →
    B.base ctx + 8 * (sizeOf set + sizeOf y + sizeOf x) + 2 ≤ k →
    Settles ctx (env.collectPairs k set y x) (env.collectPairs (k + 1) set y x)
  dispatch : ∀ ctx site nonEmpty, B.Covers ctx → B.Names site.members [site] →
    B.base ctx + 5 ≤ k → Settles ctx (env.dispatch k site nonEmpty) (env.dispatch (k + 1) site nonEmpty)
  attempt : ∀ ctx site nonEmpty, B.Covers ctx → B.Names site.members [site] →
    B.base ctx + 4 ≤ k → Settles ctx (env.attempt k site nonEmpty) (env.attempt (k + 1) site nonEmpty)
  constraintOf : ∀ ctx varied nonEmpty, B.Covers ctx → B.base ctx + 8 * B.size + 2 ≤ k →
    Settles ctx (env.constraintOf k varied nonEmpty) (env.constraintOf (k + 1) varied nonEmpty)
  mergeCalculated : ∀ ctx sources nonEmpty limiter, B.Covers ctx →
    (∀ s ∈ sources, s.members ⊆ B.members) → B.base ctx + 3 ≤ k →
    Settles ctx (env.mergeCalculated k sources nonEmpty limiter)
      (env.mergeCalculated (k + 1) sources nonEmpty limiter)

variable (B) in
theorem settlesAt_zero : B.SettlesAt 0 where
  cellValue _ _ hk := absurd hk (by omega)
  isEmptyCell _ _ hk := absurd hk (by omega)
  eval _ _ _ _ hk := absurd hk (by unfold evalCost; split <;> omega)
  evalSet _ _ _ _ _ hk := absurd hk (by unfold setCost; split <;> omega)
  evalArg _ _ _ _ hk := absurd hk (by omega)
  collect _ _ _ _ _ hk := absurd hk (by omega)
  collectPairs _ _ _ _ _ _ hk := absurd hk (by omega)
  dispatch _ _ _ _ _ hk := absurd hk (by omega)
  attempt _ _ _ _ _ hk := absurd hk (by omega)
  constraintOf _ _ _ _ hk := absurd hk (by omega)
  mergeCalculated _ _ _ _ _ _ hk := absurd hk (by omega)

namespace SettlesAt

variable {k : Nat} {ctx : Context}

theorem cellValue_succ (ih : B.SettlesAt k) (hctx : B.Covers ctx) (hk : B.base ctx + 1 ≤ k + 1) :
    Settles ctx (env.cellValue (k + 1)) (env.cellValue (k + 1 + 1)) := by
  simp only [Env.cellValue]
  refine Settles.bind (Settles.liftEval env.check_settled) fun _ => Settles.read ?_
  split
  . exact Settles.liftEval (env.loadCell_settled ctx)
  next member hlead =>
  split
  . exact Settles.throw (by simp [OlapError.OutOfFuel, fuelExhausted])
  next hdepth =>
  have hmem := hctx.coordinate (Context.leadingCalculated_mem hlead)
  refine Settles.bind_of (Settles.liftEval (env.formulaNode_settled member))
    (YieldsIn.liftEval (I := B.Covers) fun _ node _ h => formulaNode_ok h) hctx fun node hnode => ?_
  -- the formula is entered one level deeper, which spends more than walking it costs
  have hsize := B.formula_size member hmem node hnode
  have hbase : B.base { ctx with depth := ctx.depth + 1 } + B.weight ≤ B.base ctx :=
    base_deeper (by omega)
  simp only [weight] at hbase
  exact Settles.deeper (ih.eval _ node hctx.deeper (formula_names hmem hnode) (evalCost_le (by omega)))

theorem isEmptyCell_succ (ih : B.SettlesAt k) (hctx : B.Covers ctx) (hk : B.base ctx + 2 ≤ k + 1) :
    Settles ctx (env.isEmptyCell (k + 1)) (env.isEmptyCell (k + 1 + 1)) := by
  simp only [Env.isEmptyCell]
  refine Settles.tryCatch (Settles.bind (ih.cellValue ctx hctx (by omega)) fun _ => Settles.pure _)
    fun e he => ?_
  split
  . exact Settles.pure _
  . exact Settles.throw he

theorem evalArg_succ (ih : B.SettlesAt k) (hctx : B.Covers ctx) (a : SetArg)
    (ha : B.Names (Node.argMembers a) (Node.argSites a)) (hk : B.base ctx + 8 * sizeOf a + 1 ≤ k + 1) :
    Settles ctx (env.evalArg (k + 1) a) (env.evalArg (k + 1 + 1) a) := by
  cases a with
  | mk n style =>
    simp only [Env.evalArg]
    refine Settles.bind (ih.evalSet ctx n style hctx ha ?_) fun _ => Settles.pure _
    simp only [SetArg.mk.sizeOf_spec] at hk
    unfold setCost
    split <;> omega

theorem dispatch_succ (ih : B.SettlesAt k) (hctx : B.Covers ctx) (site : NativeSite)
    (nonEmpty : Bool) (hsite : B.Names site.members [site]) (hk : B.base ctx + 5 ≤ k + 1) :
    Settles ctx (env.dispatch (k + 1) site nonEmpty) (env.dispatch (k + 1 + 1) site nonEmpty) := by
  simp only [Env.dispatch]
  refine Settles.bind (ih.attempt ctx site nonEmpty hctx hsite (by omega)) fun _ => ?_
  split
  . exact Settles.pure _
  -- a plan that does not apply hands back nothing, or fails when it must apply
  split
  . exact Settles.pure _
  split
  . exact Settles.throw (by simp [OlapError.OutOfFuel, fuelExhausted])
  . exact Settles.pure _

theorem attempt_succ (ih : B.SettlesAt k) (hctx : B.Covers ctx) (site : NativeSite)
    (nonEmpty : Bool) (hsite : B.Names site.members [site]) (hk : B.base ctx + 4 ≤ k + 1) :
    Settles ctx (env.attempt (k + 1) site nonEmpty) (env.attempt (k + 1 + 1) site nonEmpty) := by
  simp only [Env.attempt]
  split
  . exact Settles.pure _
  next plan hplan =>
  have hsources : ∀ s ∈ plan.sources, s.members ⊆ B.members := fun s hs m hm =>
    hsite.1 (by simp only [NativeSite.members, hplan]; exact List.mem_flatMap.mpr ⟨s, hs, hm⟩)
  refine Settles.read ?_
  split
  . exact Settles.pure _
  split
  . exact Settles.throw_bind (by simp [OlapError.OutOfFuel, fuelExhausted])
  next hfresh =>
  -- the site's context is resolved with its key pushed, which spends the key
  have hbase := base_resolving (B := B) (hsite.2 site List.mem_cons_self)
    (Bool.eq_false_iff.mpr hfresh)
  simp only [weight] at hbase
  refine Settles.bind (Settles.resolving _
    (ih.constraintOf _ _ _ (hctx.resolving _) (by omega))) fun _ => ?_
  split
  . exact Settles.pure _
  split
  . exact Settles.pure _
  refine Settles.bind (Settles.liftEval (Eval.Raises.modifies _)) fun _ => ?_
  refine Settles.bind (Settles.liftExcept (Cube.execute_settled _ _)) fun _ => ?_
  refine Settles.bind (Settles.keepLimited env _ _ fun _ _ => Settles.pure _) fun _ => ?_
  split
  . exact Settles.bind (ih.mergeCalculated ctx _ _ _ hctx hsources (by omega)) fun _ => Settles.pure _
  . exact Settles.pure _

theorem constraintOf_succ (ih : B.SettlesAt k) (hctx : B.Covers ctx) (varied : List Nat)
    (nonEmpty : Bool) (hk : B.base ctx + 8 * B.size + 2 ≤ k + 1) :
    Settles ctx (env.constraintOf (k + 1) varied nonEmpty)
      (env.constraintOf (k + 1 + 1) varied nonEmpty) := by
  simp only [Env.constraintOf]
  refine Settles.read (Settles.bind (Settles.forIn_mem _ (fun member hmember _ => ?_) _) fun _ => ?_)
  . have hmem := hctx.coordinate hmember
    -- members of the hierarchies the operands vary are skipped
    split
    . exact Settles.pure _
    split
    . -- a measure is judged by its formula's text alone
      split
      . exact Settles.pure _
      split
      . exact Settles.pure _
      split
      . split
        . exact Settles.pure _
        . exact Settles.pure _
      . exact Settles.pure _
    split
    . -- a calculated member is walked through the set of its aggregate formula
      refine Settles.bind_of (Settles.liftEval (env.formulaNode_settled member))
        (YieldsIn.liftEval (I := B.Covers) fun _ node _ h => formulaNode_ok h) hctx
        fun node hnode => ?_
      split
      . exact Settles.pure _
      next set hset =>
      have hnames := aggregate_names hmem hnode hset
      refine Settles.bind (Settles.within _ (ih.evalArg _ _ (hctx.apply_widen _) hnames.1
        (by simp only [base_apply]; omega))) fun _ => ?_
      split
      . exact Settles.pure _
      split
      . exact Settles.pure _
      split
      . exact Settles.pure _
      split
      . exact Settles.pure _
      . exact Settles.pure _
    . split
      . exact Settles.pure _
      . exact Settles.pure _
  . split
    . exact Settles.pure _
    . exact Settles.pure _

theorem mergeCalculated_succ (ih : B.SettlesAt k) (hctx : B.Covers ctx) (sources : List ArgSource)
    (nonEmpty : Bool) (limiter : Limiter) (hsources : ∀ s ∈ sources, s.members ⊆ B.members)
    (hk : B.base ctx + 3 ≤ k + 1) :
    Settles ctx (env.mergeCalculated (k + 1) sources nonEmpty limiter)
      (env.mergeCalculated (k + 1 + 1) sources nonEmpty limiter) := by
  simp only [Env.mergeCalculated, TupleStream.forIn_eq_forIn_toList, bind_pure]
  -- gathering the operands reads the cube only, and the product it builds is of the universe
  refine Settles.bind_of (Settles.forIn_mem _ (fun s _ _ => ?_) _)
    (YieldsIn.of_yields (Gathered.forIn_quiet (fun s _ => by cases s.stored <;> rfl) sources).yields)
    hctx fun st hst => ?_
  . split
    . exact Settles.bind (Settles.liftExcept (Cube.sourceMembers_settled _ _)) fun _ => Settles.pure _
    . exact Settles.bind (Settles.pure _) fun _ => Settles.pure _
  have hproduct := B.gathered_tuples hsources hst
  refine Settles.bind (Settles.liftExcept (Limiter.ensureRoom_settled _ _)) fun _ => ?_
  -- in keep-empty mode the room for every combination is checked first
  split
  case' isTrue =>
    refine Settles.bind (Settles.liftExcept (Limiter.ensureRoom_settled _ _)) fun _ => ?_
  -- the combinations with a calculated member, checked for emptiness in non-empty mode
  all_goals
    refine Settles.forIn_mem _ (fun t ht _ => ?_) _
    split
    . exact Settles.pure _
    refine Settles.bind (Settles.liftEval env.check_settled) fun _ => ?_
    split
    . refine Settles.bind (Settles.within _ (ih.isEmptyCell _ (hctx.apply_tuple (hproduct t ht))
        (by simp only [base_apply]; omega))) fun _ => ?_
      split
      . exact Settles.pure _
      . exact Settles.bind (Settles.liftExcept (Limiter.push_settled _ _)) fun _ => Settles.pure _
    . exact Settles.bind (Settles.liftExcept (Limiter.push_settled _ _)) fun _ => Settles.pure _

theorem collect_succ (ih : B.SettlesAt k) (hctx : B.Covers ctx) (set : SetArg) (value : Option Node)
    (hn : B.Names (Node.argMembers set ++ Node.optMembers value)
      (Node.argSites set ++ Node.optSites value))
    (hk : B.base ctx + 8 * (sizeOf set + sizeOf value) + 2 ≤ k + 1) :
    Settles ctx (env.collect (k + 1) set value) (env.collect (k + 1 + 1) set value) := by
  simp only [Env.collect]
  have hctx' := hctx.apply_nonEmpty false
  have hset := hn.append_left
  refine Settles.within _ (Settles.bind_of (ih.evalArg _ set hctx' hset (by simp only [base_apply]; omega))
    ((B.staysAt k).evalArg set hset.1) hctx' fun s hs => ?_)
  refine Settles.bind (Settles.forIn_stream _ (fun t ht _ => ?_) _) fun _ => Settles.pure _
  rw [TupleSet.toList_stream] at ht
  have htuple := hctx'.apply_tuple (hs t ht)
  refine Settles.bind (Settles.liftEval env.check_settled) fun _ =>
    Settles.bind (Settles.within _ ?_) fun _ => ?_
  . -- the number read at the tuple: the value's, or else the cell's
    cases value with
    | none =>
      simp only [Option.none.sizeOf_spec] at hk
      exact Settles.bind (ih.cellValue _ htuple (by simp only [base_apply]; omega)) fun _ =>
        Settles.liftExcept (Value.toNumber_settled _)
    | some n =>
      have hn' := hn.append_right
      simp only [Node.optMembers, Node.optSites] at hn'
      simp only [Option.some.sizeOf_spec] at hk
      exact Settles.bind (ih.eval _ n htuple hn' (evalCost_le (by simp only [base_apply]; omega))) fun _ =>
        Settles.liftExcept (Value.toNumber_settled _)
  . split <;> exact Settles.pure _

theorem collectPairs_succ (ih : B.SettlesAt k) (hctx : B.Covers ctx) (set : SetArg)
    (y x : Option Node)
    (hn : B.Names (Node.argMembers set ++ Node.optMembers y ++ Node.optMembers x)
      (Node.argSites set ++ Node.optSites y ++ Node.optSites x))
    (hk : B.base ctx + 8 * (sizeOf set + sizeOf y + sizeOf x) + 2 ≤ k + 1) :
    Settles ctx (env.collectPairs (k + 1) set y x) (env.collectPairs (k + 1 + 1) set y x) := by
  simp only [Env.collectPairs]
  have hctx' := hctx.apply_nonEmpty false
  have hset : B.Names (Node.argMembers set) (Node.argSites set) :=
    hn.mono (fun _ h => by simp [h]) (fun _ h => by simp [h])
  refine Settles.within _ (Settles.bind_of (ih.evalArg _ set hctx' hset (by simp only [base_apply]; omega))
    ((B.staysAt k).evalArg set hset.1) hctx' fun s hs => ?_)
  refine Settles.bind (Settles.forIn_stream _ (fun t ht _ => ?_) _) fun _ => Settles.pure _
  rw [TupleSet.toList_stream] at ht
  have htuple := hctx'.apply_tuple (hs t ht)
  refine Settles.bind (Settles.liftEval env.check_settled) fun _ =>
    Settles.bind (Settles.within _ ?_) fun _ => ?_
  . -- the second coordinate is `y`'s number or else the cell's, the first `x`'s or else the position
    have hx := hn.append_right
    cases y
    case' none =>
      refine Settles.bind (ih.cellValue _ htuple (by simp only [base_apply]; omega)) fun _ =>
        Settles.bind (Settles.liftExcept (Value.toNumber_settled _)) fun _ => ?_
    case' some ny =>
      simp only [Option.some.sizeOf_spec] at hk
      refine Settles.bind (ih.eval _ ny htuple hn.append_left.append_right
        (evalCost_le (by simp only [base_apply]; omega))) fun _ =>
        Settles.bind (Settles.liftExcept (Value.toNumber_settled _)) fun _ => ?_
    all_goals
      cases x with
      | none => exact Settles.bind (Settles.pure _) fun _ => Settles.pure _
      | some nx =>
        simp only [Option.some.sizeOf_spec] at hk
        exact Settles.bind (ih.eval _ nx htuple hx (evalCost_le (by simp only [base_apply]; omega)))
          fun _ => Settles.bind (Settles.liftExcept (Value.toNumber_settled _)) fun _ => Settles.pure _
  . split
    . exact Settles.pure _
    . exact Settles.pure _

theorem eval_succ (ih : B.SettlesAt k) (hctx : B.Covers ctx) (node : Node)
    (hn : B.Names node.members node.sites) (hk : B.evalCost ctx node ≤ k + 1) :
    Settles ctx (env.eval (k + 1) node) (env.eval (k + 1 + 1) node) := by
  cases node
  -- a set node is evaluated as a set, which costs one less
  case levelMembers | children | enumerate | singleton | crossJoin | filter | topCount | head
    | order | generate =>
    simp only [Env.eval]
    refine Settles.bind (ih.evalSet ctx _ .list hctx hn ?_) fun _ => Settles.pure _
    simp only [evalCost, setCost, Node.isSetOperator, if_true] at hk ⊢
    omega
  all_goals simp [evalCost, Node.isSetOperator] at hk
  all_goals simp only [Node.members, Node.sites] at hn
  -- only the outer calls unfold: the bound of the operands on the right is named first
  all_goals
    obtain ⟨j, hj⟩ : ∃ j, k + 1 = j := ⟨_, rfl⟩
    rw [show k + 1 + 1 = j + 1 by omega]
    simp only [Env.eval]
    subst hj
  case tuple ns =>
    refine Settles.bind (Settles.forIn_mem ns (fun n hmem _ => ?_) _) fun _ => Settles.pure _
    have hsize := List.sizeOf_lt_of_mem hmem
    refine Settles.bind (ih.eval ctx n hctx
      (hn.mono (Node.subset_membersAll hmem) (Node.subset_sitesAll hmem)) (evalCost_le (by omega))) fun _ => ?_
    refine Settles.bind (Settles.liftExcept (Value.asMember_settled _)) fun _ => ?_
    split
    . exact Settles.throw_bind (by simp [OlapError.OutOfFuel, fuelExhausted])
    . exact Settles.pure _
  case coalesce ns _ =>
    refine Settles.bind (Settles.forIn_mem ns (fun n hmem _ => ?_) _) fun _ => ?_
    . have hsize := List.sizeOf_lt_of_mem hmem
      refine Settles.bind (ih.eval ctx n hctx
        (hn.mono (Node.subset_membersAll hmem) (Node.subset_sitesAll hmem)) (evalCost_le (by omega))) fun _ => ?_
      split <;> exact Settles.pure _
    . split <;> exact Settles.pure _
  case memberValue t =>
    -- the cell is read at the tuple the operand gives, which is of the universe
    refine Settles.bind_of (ih.eval ctx t hctx hn (evalCost_le (by omega))) ((B.staysAt k).eval t hn.1) hctx
      fun v hv => ?_
    refine Settles.bind_of (Settles.liftExcept (Value.asTuple_settled v))
      (YieldsIn.liftExcept fun tuple h => List.Subset.trans (Value.subset_of_asTuple h) hv) hctx
      fun tuple htuple => ?_
    exact Settles.within _ (ih.cellValue _ (hctx.apply_tuple htuple) (by simp only [base_apply]; omega))
  case count set exclude =>
    have hctx' := hctx.apply_nonEmpty false
    have hcost : B.base ((Overlay.nonEmpty false).apply ctx) + 8 * sizeOf set + 1 ≤ k := by
      simp only [base_apply]
      omega
    split
    . exact Settles.bind (Settles.within _ (ih.evalArg _ set hctx' hn hcost)) fun _ => Settles.pure _
    . -- the tuples whose cells are not empty are counted one by one
      refine Settles.within _ (Settles.bind_of (ih.evalArg _ set hctx' hn hcost)
        ((B.staysAt k).evalArg set hn.1) hctx' fun s hs => ?_)
      refine Settles.bind (Settles.forIn_stream _ (fun t ht _ => ?_) _) fun _ => Settles.pure _
      rw [TupleSet.toList_stream] at ht
      refine Settles.bind (Settles.liftEval env.check_settled) fun _ => Settles.bind (Settles.within _
        (ih.isEmptyCell _ (hctx'.apply_tuple (hs t ht)) (by simp only [base_apply]; omega))) fun _ => ?_
      split <;> exact Settles.pure _
  -- the other operators evaluate their operands in place
  case const | memberConst => exact Settles.pure _
  case currentMember | slicer => exact Settles.read (Settles.pure _)
  case isEmpty n | format n _ =>
    exact Settles.bind (ih.eval ctx n hctx hn (evalCost_le (by omega))) fun _ => Settles.pure _
  case parent n | memberName n | memberToTuple n =>
    exact Settles.bind (ih.eval ctx n hctx hn (evalCost_le (by omega))) fun _ =>
      Settles.bind (Settles.liftExcept (Value.asMember_settled _)) fun _ => Settles.pure _
  case negate n | truncate n =>
    exact Settles.bind (ih.eval ctx n hctx hn (evalCost_le (by omega))) fun _ =>
      Settles.bind (Settles.liftExcept (Value.toNumber_settled _)) fun _ => Settles.pure _
  case not n =>
    exact Settles.bind (ih.eval ctx n hctx hn (evalCost_le (by omega))) fun _ =>
      Settles.bind (Settles.liftExcept (Value.toBoolean_settled _)) fun _ => Settles.pure _
  case toText n =>
    exact Settles.bind (ih.eval ctx n hctx hn (evalCost_le (by omega))) fun _ =>
      Settles.bind (Settles.liftExcept (Value.toText_settled _)) fun _ => Settles.pure _
  case arith _ l r =>
    refine Settles.bind (ih.eval ctx l hctx hn.append_left (evalCost_le (by omega))) fun _ =>
      Settles.bind (Settles.liftExcept (Value.toNumber_settled _)) fun _ => ?_
    split
    . exact Settles.pure _
    . exact Settles.bind (ih.eval ctx r hctx hn.append_right (evalCost_le (by omega))) fun _ =>
        Settles.bind (Settles.liftExcept (Value.toNumber_settled _)) fun _ =>
        Settles.bind (Settles.liftExcept (ArithOp.apply_settled _ _ _)) fun _ => Settles.pure _
  case compare _ l r =>
    exact Settles.bind (ih.eval ctx l hctx hn.append_left (evalCost_le (by omega))) fun _ =>
      Settles.bind (ih.eval ctx r hctx hn.append_right (evalCost_le (by omega))) fun _ =>
      Settles.liftExcept (compareValues_settled _ _ _)
  case logical _ l r =>
    refine Settles.bind (ih.eval ctx l hctx hn.append_left (evalCost_le (by omega))) fun _ =>
      Settles.bind (Settles.liftExcept (Value.toBoolean_settled _)) fun _ => ?_
    split
    . exact Settles.pure _
    . exact Settles.bind (ih.eval ctx r hctx hn.append_right (evalCost_le (by omega))) fun _ =>
        Settles.bind (Settles.liftExcept (Value.toBoolean_settled _)) fun _ => Settles.pure _
  case iif c t e _ =>
    refine Settles.bind (ih.eval ctx c hctx hn.append_left.append_left (evalCost_le (by omega)))
      fun _ => Settles.bind (Settles.liftExcept (Value.toBoolean_settled _)) fun _ => ?_
    split
    . exact ih.eval ctx t hctx hn.append_left.append_right (evalCost_le (by omega))
    . exact ih.eval ctx e hctx hn.append_right (evalCost_le (by omega))
  case formatWith v p =>
    exact Settles.bind (ih.eval ctx v hctx hn.append_left (evalCost_le (by omega))) fun _ =>
      Settles.bind (ih.eval ctx p hctx hn.append_right (evalCost_le (by omega))) fun _ =>
      Settles.bind (Settles.liftExcept (Value.toText_settled _)) fun _ => Settles.pure _
  case coerce n _ =>
    refine Settles.bind (ih.eval ctx n hctx hn (evalCost_le (by omega))) fun _ => ?_
    -- a conversion to one of four categories, or the value as it is
    split
    . exact Settles.bind (Settles.liftExcept (Value.toNumber_settled _)) fun _ => Settles.pure _
    . exact Settles.bind (Settles.liftExcept (Value.toInteger_settled _)) fun _ => Settles.pure _
    . exact Settles.bind (Settles.liftExcept (Value.toBoolean_settled _)) fun _ => Settles.pure _
    . exact Settles.bind (Settles.liftExcept (Value.toText_settled _)) fun _ => Settles.pure _
    . exact Settles.pure _
  case sum set v =>
    refine Settles.bind (ih.collect ctx set v hctx hn (by omega)) fun _ => ?_
    split
    . exact Settles.pure _
    split
    . exact Settles.pure _
    . exact Settles.pure _
  case avg set v | dispersion set v _ _ =>
    exact Settles.bind (ih.collect ctx set v hctx hn (by omega)) fun _ => Settles.pure _
  case extremum set v _ =>
    refine Settles.bind (ih.collect ctx set v hctx hn (by omega)) fun _ => ?_
    split
    . exact Settles.pure _
    . exact Settles.pure _
  case aggregate set v =>
    refine Settles.read (Settles.bind (ih.collect ctx set v hctx hn (by omega)) fun _ => ?_)
    split
    . exact Settles.pure _
    . exact Settles.pure _
  case percentile set v p =>
    -- the share is read first, from the percent operand when there is one
    cases p
    case' none => refine Settles.bind (Settles.pure _) fun _ => ?_
    case' some p =>
      simp only [Option.some.sizeOf_spec] at hk
      refine Settles.bind (ih.eval ctx p hctx hn.append_right (evalCost_le (by omega))) fun _ =>
        Settles.bind (Settles.liftExcept (Value.toNumber_settled _)) fun _ =>
        Settles.bind (Settles.pure _) fun _ => ?_
    all_goals
      split
      . exact Settles.pure _
      . exact Settles.bind (ih.collect ctx set v hctx hn.append_left (by omega)) fun _ =>
          Settles.pure _
  case regression _ point set y x =>
    have hpairs : B.Names (Node.argMembers set ++ Node.optMembers (some y) ++ Node.optMembers x)
        (Node.argSites set ++ Node.optSites (some y) ++ Node.optSites x) :=
      hn.mono (fun _ h => by simp only [List.mem_append, Node.optMembers] at h ⊢; tauto)
        (fun _ h => by simp only [List.mem_append, Node.optSites] at h ⊢; tauto)
    -- the forecast point is read first, when there is one, and the fit is made after it
    cases point
    case' some p =>
      simp only [Option.some.sizeOf_spec] at hk
      refine Settles.bind (ih.eval ctx p hctx hn.append_left.append_left.append_left
        (evalCost_le (by omega))) fun _ =>
        Settles.bind (Settles.liftExcept (Value.toNumber_settled _)) fun _ => ?_
      split
    all_goals
      refine Settles.bind (Settles.pure _) fun _ => ?_
      split
      . exact Settles.pure _
      refine Settles.bind (ih.collectPairs ctx set _ x hctx hpairs
        (by simp only [Option.some.sizeOf_spec]; omega)) fun _ => ?_
      split
      . exact Settles.pure _
      . exact Settles.pure _
  case pairwise _ set x y =>
    have hpairs : B.Names (Node.argMembers set ++ Node.optMembers y ++ Node.optMembers (some x))
        (Node.argSites set ++ Node.optSites y ++ Node.optSites (some x)) :=
      hn.mono (fun _ h => by simp only [List.mem_append, Node.optMembers] at h ⊢; tauto)
        (fun _ h => by simp only [List.mem_append, Node.optSites] at h ⊢; tauto)
    refine Settles.bind (ih.collectPairs ctx set y _ hctx hpairs
      (by simp only [Option.some.sizeOf_spec]; omega)) fun _ => ?_
    split
    . exact Settles.pure _
    . exact Settles.pure _

theorem filter_succ (ih : B.SettlesAt k) (hctx : B.Covers ctx) (set : SetArg) (c : Node)
    (site : NativeSite) (style : ResultStyle)
    (hn : B.Names (Node.filter set c site).members (Node.filter set c site).sites)
    (hk : B.setCost ctx (.filter set c site) ≤ k + 1) :
    Settles ctx (env.evalSet (k + 1) (.filter set c site) style)
      (env.evalSet (k + 1 + 1) (.filter set c site) style) := by
  simp [setCost, Node.isSetOperator] at hk
  simp only [Node.members, Node.sites] at hn
  simp only [Env.evalSet]
  have hset : B.Names (Node.argMembers set) (Node.argSites set) :=
    hn.mono (fun _ h => by simp [h]) (fun _ h => by simp [h])
  have hc : B.Names c.members c.sites := hn.mono (fun _ h => by simp [h]) (fun _ h => by simp [h])
  have hsite : B.Names site.members [site] :=
    hn.mono (fun _ h => by simp [h]) (fun _ h => by simp_all)
  refine Settles.bind (ih.dispatch ctx site false hctx hsite (by omega)) fun _ => ?_
  split
  . exact Settles.pure _
  -- the condition is evaluated at each tuple of the operand
  refine Settles.bind_of (ih.evalArg ctx set hctx hset (by omega)) ((B.staysAt k).evalArg set hset.1)
    hctx fun s hs => ?_
  refine Settles.bind (Settles.forIn_stream _ (fun t ht _ => ?_) _) fun _ => Settles.pure _
  rw [TupleSet.toList_stream] at ht
  refine Settles.bind (Settles.liftEval env.check_settled) fun _ =>
    Settles.bind (Settles.within _ ?_) fun _ => ?_
  . exact Settles.bind (ih.eval _ c (hctx.apply_tuple (hs t ht)) hc
      (evalCost_le (by simp only [base_apply]; omega))) fun _ =>
      Settles.bind (Settles.liftExcept (Value.toBoolean_settled _)) fun _ => Settles.pure _
  . split <;> exact Settles.pure _

theorem topCount_succ (ih : B.SettlesAt k) (hctx : B.Covers ctx) (set : SetArg) (count : Node)
    (measure : Option Node) (site : Option NativeSite) (top : Bool) (style : ResultStyle)
    (hn : B.Names (Node.topCount set count measure site top).members
      (Node.topCount set count measure site top).sites)
    (hk : B.setCost ctx (.topCount set count measure site top) ≤ k + 1) :
    Settles ctx (env.evalSet (k + 1) (.topCount set count measure site top) style)
      (env.evalSet (k + 1 + 1) (.topCount set count measure site top) style) := by
  simp [setCost, Node.isSetOperator] at hk
  simp only [Node.members, Node.sites] at hn
  simp only [Env.evalSet]
  have hset : B.Names (Node.argMembers set) (Node.argSites set) :=
    hn.mono (fun _ h => by simp [h]) (fun _ h => by simp [h])
  have hcount : B.Names count.members count.sites :=
    hn.mono (fun _ h => by simp [h]) (fun _ h => by simp [h])
  -- the native site first, when there is one
  cases site
  case' none => refine Settles.bind (Settles.pure _) fun _ => ?_
  case' some site =>
    refine Settles.bind (ih.dispatch ctx site false hctx
      (hn.mono (fun _ h => by simp [h]) (fun _ h => by simp_all)) (by omega)) fun _ => ?_
  all_goals
    split
    . exact Settles.pure _
    refine Settles.bind (ih.eval ctx count hctx hcount (evalCost_le (by omega))) fun _ => ?_
    refine Settles.bind (Settles.liftExcept (Value.toInteger_settled _)) fun _ => ?_
    refine Settles.bind_of (ih.evalArg ctx set hctx hset (by omega))
      ((B.staysAt k).evalArg set hset.1) hctx fun s hs => ?_
    cases measure with
    | none => exact Settles.pure _
    | some m =>
      -- the measure is evaluated at each tuple of the operand
      have hm : B.Names m.members m.sites :=
        hn.mono (fun _ h => by simp [Node.optMembers, h]) (fun _ h => by simp [Node.optSites, h])
      simp only [Option.some.sizeOf_spec] at hk
      refine Settles.bind (Settles.forIn_mem _ (fun t ht _ => ?_) _) fun _ => Settles.pure _
      refine Settles.bind (Settles.liftEval env.check_settled) fun _ => ?_
      exact Settles.bind (Settles.within _ (Settles.bind
        (ih.eval _ m (hctx.apply_tuple (hs t ht)) hm (evalCost_le (by simp only [base_apply]; omega)))
        fun _ => Settles.liftExcept (Value.toNumber_settled _))) fun _ => Settles.pure _

theorem head_succ (ih : B.SettlesAt k) (hctx : B.Covers ctx) (set : SetArg) (count : Option Node)
    (style : ResultStyle) (hn : B.Names (Node.head set count).members (Node.head set count).sites)
    (hk : B.setCost ctx (.head set count) ≤ k + 1) :
    Settles ctx (env.evalSet (k + 1) (.head set count) style)
      (env.evalSet (k + 1 + 1) (.head set count) style) := by
  simp [setCost, Node.isSetOperator] at hk
  simp only [Node.members, Node.sites] at hn
  simp only [Env.evalSet]
  have hset := hn.append_left
  -- how many tuples to take, then the operand
  cases count with
  | none =>
    refine Settles.bind (Settles.pure _) fun _ =>
      Settles.bind (ih.evalArg ctx set hctx hset (by omega)) fun _ => ?_
    split <;> exact Settles.pure _
  | some c =>
    simp only [Option.some.sizeOf_spec] at hk
    have hc := hn.append_right
    simp only [Node.optMembers, Node.optSites] at hc
    refine Settles.bind (ih.eval ctx c hctx hc (evalCost_le (by omega))) fun _ =>
      Settles.bind (Settles.liftExcept (Value.toInteger_settled _)) fun _ =>
      Settles.bind (Settles.pure _) fun _ =>
      Settles.bind (ih.evalArg ctx set hctx hset (by omega)) fun _ => ?_
    split <;> exact Settles.pure _

theorem order_succ (ih : B.SettlesAt k) (hctx : B.Covers ctx) (set : SetArg) (key : Node)
    (descending : Bool) (style : ResultStyle)
    (hn : B.Names (Node.order set key descending).members (Node.order set key descending).sites)
    (hk : B.setCost ctx (.order set key descending) ≤ k + 1) :
    Settles ctx (env.evalSet (k + 1) (.order set key descending) style)
      (env.evalSet (k + 1 + 1) (.order set key descending) style) := by
  simp [setCost, Node.isSetOperator] at hk
  simp only [Node.members, Node.sites] at hn
  simp only [Env.evalSet]
  have hset := hn.append_left
  have hkey := hn.append_right
  -- the key is evaluated at each tuple of the operand
  refine Settles.bind_of (ih.evalArg ctx set hctx hset (by omega)) ((B.staysAt k).evalArg set hset.1)
    hctx fun s hs => ?_
  refine Settles.bind (Settles.forIn_mem _ (fun t ht _ => ?_) _) fun _ => Settles.pure _
  refine Settles.bind (Settles.liftEval env.check_settled) fun _ => ?_
  exact Settles.bind (Settles.within _ (ih.eval _ key (hctx.apply_tuple (hs t ht)) hkey
    (evalCost_le (by simp only [base_apply]; omega)))) fun _ => Settles.pure _

theorem evalSet_succ (ih : B.SettlesAt k) (hctx : B.Covers ctx) (node : Node) (style : ResultStyle)
    (hn : B.Names node.members node.sites) (hk : B.setCost ctx node ≤ k + 1) :
    Settles ctx (env.evalSet (k + 1) node style) (env.evalSet (k + 1 + 1) node style) := by
  cases node
  -- the other nodes are evaluated as values, which costs one less
  case const | memberConst | currentMember | parent | memberName | tuple | memberToTuple | arith
    | negate | compare | logical | not | iif | isEmpty | coalesce | format | formatWith | coerce
    | truncate | toText | memberValue | sum | avg | extremum | percentile | dispersion | regression
    | pairwise | count | aggregate =>
    simp only [Env.evalSet]
    refine Settles.bind (ih.eval ctx _ hctx hn ?_) fun v => ?_
    . simp only [setCost, evalCost, Node.isSetOperator, Bool.false_eq_true, if_false] at hk ⊢
      omega
    split
    . exact Settles.pure _
    . exact Settles.pure _
    . exact Settles.throw (OlapError.not_outOfFuel_of_mem 'c' (by simp) (by decide) (by decide))
  -- filtering, ranking, taking and sorting walk an operand's tuples
  case filter set c site => exact filter_succ ih hctx set c site style hn hk
  case topCount set count measure site top =>
    exact topCount_succ ih hctx set count measure site top style hn hk
  case head set count => exact head_succ ih hctx set count style hn hk
  case order set key descending => exact order_succ ih hctx set key descending style hn hk
  all_goals simp [setCost, Node.isSetOperator] at hk
  all_goals simp only [Node.members, Node.sites] at hn
  all_goals simp only [Env.evalSet]
  case levelMembers =>
    exact Settles.bind (Settles.liftExcept (Cube.levelMembers_settled _ _)) fun _ => Settles.pure _
  case slicer => exact Settles.read (Settles.pure _)
  case children n =>
    refine Settles.bind (ih.eval ctx n hctx hn (evalCost_le (by omega))) fun _ => ?_
    split
    . exact Settles.pure _
    . exact Settles.pure _
    . exact Settles.throw (OlapError.not_outOfFuel_append 'c' _ (by decide))
  case singleton n =>
    refine Settles.bind (ih.eval ctx n hctx hn (evalCost_le (by omega))) fun _ => ?_
    split
    . exact Settles.pure _
    . exact Settles.pure _
    . exact Settles.pure _
    . exact Settles.throw (OlapError.not_outOfFuel_append 'g' _ (by decide))
  case enumerate items _ =>
    refine Settles.bind (Settles.forIn_mem items (fun it hit _ => ?_) _) fun _ => Settles.pure _
    have hsize := List.sizeOf_lt_of_mem hit
    have hnames := hn.mono (Node.subset_itemMembers hit) (Node.subset_itemSites hit)
    cases it with
    | single n =>
      simp only [Node.itemMembers, Node.itemSites, List.append_nil, SetItem.single.sizeOf_spec]
        at hnames hsize
      refine Settles.bind (ih.eval ctx n hctx hnames (evalCost_le (by omega))) fun _ => ?_
      split
      . exact Settles.pure _
      . exact Settles.pure _
      . exact Settles.pure _
      . exact Settles.throw_bind (OlapError.not_outOfFuel_append 'm' _ (by decide))
    | splice a =>
      simp only [Node.itemMembers, Node.itemSites, List.append_nil, SetItem.splice.sizeOf_spec]
        at hnames hsize
      refine Settles.bind (ih.evalArg ctx a hctx hnames (by omega)) fun _ => ?_
      exact Settles.bind (Settles.forIn_stream _ (fun _ _ _ => Settles.pure _) _) fun _ => Settles.pure _
  case crossJoin args site force =>
    have hargs : ∀ a ∈ args, B.Names (Node.argMembers a) (Node.argSites a) := fun a ha =>
      hn.mono (List.Subset.trans (Node.subset_argsMembers ha) (List.subset_append_left _ _))
        (List.Subset.trans (Node.subset_argsSites ha) (List.subset_append_left _ _))
    have hsite : B.Names site.members [site] := hn.append_right
    refine Settles.read (Settles.bind (ih.dispatch ctx site _ hctx hsite (by omega)) fun _ => ?_)
    split
    . exact Settles.pure _
    -- the operands' tuples, then their product
    refine Settles.bind_of (Settles.forIn_mem args (fun a ha _ => ?_) _)
      (YieldsIn.forIn_mem (J := fun lists : Array (List Tuple) => ∀ l ∈ lists.toList, B.Tuples l)
        args (fun a ha lists hlists => ?_) #[] (fun _ h => absurd h List.not_mem_nil))
      hctx fun lists hlists => ?_
    . have hsize := List.sizeOf_lt_of_mem ha
      exact Settles.bind (ih.evalArg ctx a hctx (hargs a ha) (by omega)) fun _ => Settles.pure _
    . exact YieldsIn.bind ((B.staysAt k).evalArg a (hargs a ha).1) fun s hs =>
        YieldsIn.pure (forall_mem_toList_push hlists hs)
    have hproduct : B.Tuples (TupleStream.product lists.toList).toList :=
      Universe.Tuples.cartesian hlists
    split
    . -- empty tuples kept: a bound on the product, then the product lazily or walked
      split
      . exact Settles.throw_bind (by simp [OlapError.OutOfFuel, fuelExhausted])
      split
      . exact Settles.pure _
      . exact Settles.bind (Settles.forIn_stream _ (fun _ _ _ =>
          Settles.bind (Settles.liftEval env.check_settled) fun _ => Settles.pure _) _)
          fun _ => Settles.pure _
    . -- empty tuples dropped: one limited walk under the widened slicer
      exact Settles.within _ (Settles.bind (Settles.keepLimited env _ _ fun t ht =>
        Settles.within _ (ih.isEmptyCell _ ((hctx.apply_widen _).apply_tuple (hproduct t ht))
          (by simp only [base_apply]; omega))) fun _ => Settles.pure _)
  case generate source each all =>
    have hsource : B.Names (Node.argMembers source) (Node.argSites source) := hn.append_left
    have heach : B.Names (Node.argMembers each) (Node.argSites each) := hn.append_right
    refine Settles.bind_of (ih.evalArg ctx source hctx hsource (by omega))
      ((B.staysAt k).evalArg source hsource.1) hctx fun s hs => ?_
    exact Settles.bind (Settles.generateLimited env _ s (fun t ht => Settles.within _
      (ih.evalArg _ each (hctx.apply_tuple (hs t ht)) heach (by simp only [base_apply]; omega))) all)
      fun _ => Settles.pure _
theorem succ (ih : B.SettlesAt k) : B.SettlesAt (k + 1) where
  cellValue _ hctx hk := ih.cellValue_succ hctx hk
  isEmptyCell _ hctx hk := ih.isEmptyCell_succ hctx hk
  eval _ n hctx hn hk := ih.eval_succ hctx n hn hk
  evalSet _ n style hctx hn hk := ih.evalSet_succ hctx n style hn hk
  evalArg _ a hctx ha hk := ih.evalArg_succ hctx a ha hk
  collect _ set v hctx hn hk := ih.collect_succ hctx set v hn hk
  collectPairs _ set y x hctx hn hk := ih.collectPairs_succ hctx set y x hn hk
  dispatch _ site nonEmpty hctx hsite hk := ih.dispatch_succ hctx site nonEmpty hsite hk
  attempt _ site nonEmpty hctx hsite hk := ih.attempt_succ hctx site nonEmpty hsite hk
  constraintOf _ varied nonEmpty hctx hk := ih.constraintOf_succ hctx varied nonEmpty hk
  mergeCalculated _ sources nonEmpty l hctx hsources hk :=
    ih.mergeCalculated_succ hctx sources nonEmpty l hsources hk

end SettlesAt

variable (B) in
theorem settlesAt : ∀ k, B.SettlesAt k
  | 0 => B.settlesAt_zero
  | k + 1 => (settlesAt k).succ

end Bounds

/-- The bounds of evaluating `node` at `ctx`: the universe generated by the members the cube
lists, those of the context and those `node` names; the keys of the sites of `node` and of the
formulas of that universe; and the sum of the sizes of those formulas. -/
noncomputable def Bounds.of (env : Env) (ctx : Context) (node : Node) : env.Bounds where
  toUniverse := Universe.of env (ctx.seed node)
  keys := node.sites.map (·.key) ++ (Universe.of env (ctx.seed node)).members.flatMap fun m =>
    ((env.formula? m).map fun n => n.sites.map (·.key)).getD []
  size := ((Universe.of env (ctx.seed node)).members.map fun m => ((env.formula? m).map sizeOf).getD 0).sum
  formula_keys m hm n hn s hs :=
    List.mem_append_right _ (List.mem_flatMap.mpr ⟨m, hm, by simp [hn]; exact ⟨s, hs, rfl⟩⟩)
  formula_size m hm n hn :=
    List.le_sum_of_mem (List.mem_map.mpr ⟨m, hm, by simp [hn]⟩)

namespace Bounds

theorem of_covers (env : Env) (ctx : Context) (node : Node) : (Bounds.of env ctx node).Covers ctx :=
  Universe.covers_seed env ctx node

theorem of_names (env : Env) (ctx : Context) (node : Node) :
    (Bounds.of env ctx node).Names node.members node.sites :=
  ⟨fun m hm => Universe.seed_subset env (ctx.seed node) (by simp [Context.seed, hm]),
    fun s hs => List.mem_append_left _ (List.mem_map.mpr ⟨s, hs, rfl⟩)⟩

end Bounds

open EvalAt in
theorem eval_settles (env : Env) (ctx : Context) (node : Node) :
    ∃ N, ∀ k c, ((env.eval (N + k) node : EvalAt Value).run ctx).run.run c =
        ((env.eval N node : EvalAt Value).run ctx).run.run c ∧
      RaisesIn (¬ ·.OutOfFuel) (((env.eval N node : EvalAt Value).run ctx).run.run c).1 := by
  let B := Bounds.of env ctx node
  -- past the node's cost, each level settles against the next
  have hstep : ∀ k, Settles ctx (env.eval (B.evalCost ctx node + k) node)
      (env.eval (B.evalCost ctx node + k + 1) node) := fun k =>
    (B.settlesAt _).eval ctx node (Bounds.of_covers env ctx node) (Bounds.of_names env ctx node)
      (Nat.le_add_right _ _)
  refine ⟨B.evalCost ctx node, fun k c => ⟨?_, (hstep 0 c).2⟩⟩
  induction k with
  | zero => rfl
  | succ k ih =>
    rw [← ih]
    exact (hstep k c).1.symm

/-- Compiling an expression never exhausts the compiler's bound, and evaluating a node, such as
the one it compiles to, at any context settles once the bound is large enough: more fuel then
changes nothing, and the outcome is not the error of running out of fuel. -/
theorem evaluation_terminates (env : Env) (e : Exp) (cat : Category) :
    RaisesIn (¬ ·.OutOfFuel) (env.functions.compile e cat) ∧
      ∀ (node : Node) (ctx : Context), ∃ N, ∀ k c,
        ((env.eval (N + k) node : EvalAt Value).run ctx).run.run c =
          ((env.eval N node : EvalAt Value).run ctx).run.run c ∧
        RaisesIn (¬ ·.OutOfFuel) (((env.eval N node : EvalAt Value).run ctx).run.run c).1 :=
  ⟨(env.functions.compile_settles e cat).1, fun node ctx => eval_settles env ctx node⟩

end Env

end OlapCalc
