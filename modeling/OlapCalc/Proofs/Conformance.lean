import OlapCalc.Proofs.TupleArity
import OlapCalc.Proofs.NonEmptyMode

/-!
Evaluation respects static shapes.

A typed node gives only values of its shape, and a typed set node only tuples of its arity, as
long as the slicer's tuples hold one member each: the slicer function hands the slicer's tuples
out as a set of single members. Every overlay keeps such a slicer (widening drops members, and
the tuples it would leave empty), so the invariant holds of every context a nested evaluation
sees. `YieldsIn I P m` says that every result of `m` from a context satisfying `I` satisfies `P`;
`ConformsAt` collects what the evaluator's functions yield at a nesting bound.

A slicer of wider tuples breaks it: `$Slicer()` is typed as a set of single members and returns
the slicer's tuples as they are.
-/

namespace OlapCalc

namespace Context

/-- Every slicer tuple holds a single member. -/
def UnarySlicer (ctx : Context) : Prop := ∀ t ∈ ctx.slicer, t.length = 1

@[simp] theorem setMember_slicer (ctx : Context) (m : Member) :
    (ctx.setMember m).slicer = ctx.slicer := by
  unfold setMember
  split <;> rfl

@[simp] theorem setTuple_slicer (ctx : Context) (t : Tuple) : (ctx.setTuple t).slicer = ctx.slicer := by
  induction t generalizing ctx with
  | nil => rfl
  | cons m t ih => exact (ih (ctx.setMember m)).trans (setMember_slicer ctx m)

end Context

theorem length_of_mem_projectOut {tuples : List Tuple} (h : ∀ t ∈ tuples, t.length = 1)
    (hierarchies : List Nat) : ∀ u ∈ projectOut tuples hierarchies, u.length = 1 := by
  unfold projectOut
  refine List.foldl_invariant (fun acc : List Tuple => ∀ u ∈ acc, u.length = 1)
    (fun acc t ht hacc => ?_) (fun _ h => absurd h List.not_mem_nil)
  dsimp only
  split
  . exact hacc
  . next hkept =>
    intro u hu
    rcases List.mem_append.mp hu with hu | hu
    . exact hacc u hu
    . -- what is kept of a single member is that member
      rw [List.mem_singleton] at hu
      rw [hu]
      have hle : (t.filter fun m => !hierarchies.contains m.hierarchy).length ≤ 1 :=
        (List.length_filter_le _ t).trans_eq (h t ht)
      have hne : (t.filter fun m => !hierarchies.contains m.hierarchy) ≠ [] := fun h0 =>
        hkept (by rw [h0]; rfl)
      have hpos := List.length_pos_iff.mpr hne
      omega

namespace Context.UnarySlicer

variable {ctx : Context}

theorem widenSlicer (h : ctx.UnarySlicer) (hs : List Nat) : (ctx.widenSlicer hs).UnarySlicer := by
  unfold Context.widenSlicer
  split
  . exact length_of_mem_projectOut h hs
  . exact h

theorem apply (h : ctx.UnarySlicer) : ∀ o : Overlay, (o.apply ctx).UnarySlicer
  | .tuple t => by
    unfold Overlay.apply UnarySlicer
    rw [setTuple_slicer]
    exact h
  | .nonEmpty _ => h
  | .widen hs => h.widenSlicer hs

theorem descend (h : ctx.UnarySlicer) : ({ ctx with depth := ctx.depth + 1 } : Context).UnarySlicer := h

theorem resolve (h : ctx.UnarySlicer) (key : String) :
    ({ ctx with resolving := ctx.resolving ++ [key] } : Context).UnarySlicer := h

end Context.UnarySlicer

namespace EvalAt

variable {α β : Type}

/-- Every result of `m`, from a context satisfying `I`, satisfies `P`. -/
def YieldsIn (I : Context → Prop) (P : α → Prop) (m : EvalAt α) : Prop :=
  ∀ ctx, I ctx → ∀ c b, ((m.run ctx).run.run c).1 = .ok b → P b

namespace YieldsIn

variable {I : Context → Prop}

theorem of_yields {P : α → Prop} {m : EvalAt α} (h : Yields P m) : YieldsIn I P m :=
  fun ctx _ => h ctx

theorem pure {P : α → Prop} {a : α} (h : P a) : YieldsIn I P (Pure.pure a) :=
  of_yields (Yields.pure h)

theorem throw {P : α → Prop} (e : OlapError) : YieldsIn I P (MonadExcept.throw e) :=
  of_yields (Yields.throw e)

theorem liftExcept {P : α → Prop} {x : Except OlapError α} (h : ∀ a, x = .ok a → P a) :
    YieldsIn I P (OlapCalc.liftExcept x) :=
  of_yields (Yields.liftExcept h)

theorem trivial {m : EvalAt α} : YieldsIn I (fun _ => True) m :=
  of_yields Yields.trivial

theorem imp {P Q : α → Prop} {m : EvalAt α} (h : YieldsIn I P m) (hPQ : ∀ a, P a → Q a) :
    YieldsIn I Q m :=
  fun ctx hI c a ha => hPQ a (h ctx hI c a ha)

theorem bind {P : α → Prop} {Q : β → Prop} {m : EvalAt α} {f : α → EvalAt β}
    (hm : YieldsIn I P m) (hf : ∀ a, P a → YieldsIn I Q (f a)) : YieldsIn I Q (m >>= f) := by
  intro ctx hI c b hb
  rw [run_bind, EvalOn.run_bind] at hb
  rcases h : (m.run ctx).run.run c with ⟨_ | a, c'⟩ <;> rw [h] at hb
  . cases hb
  . exact hf a (hm ctx hI c a (by rw [h])) ctx hI c' b hb

theorem read {P : α → Prop} {f : Context → EvalAt α} (h : ∀ ctx, I ctx → YieldsIn I P (f ctx)) :
    YieldsIn I P (EvalMonad.context >>= f) :=
  fun ctx hI => h ctx hI ctx hI

theorem within {P : α → Prop} {m : EvalAt α} (o : Overlay) (ho : ∀ ctx, I ctx → I (o.apply ctx))
    (h : YieldsIn I P m) : YieldsIn I P (EvalMonad.within o m) :=
  fun ctx hI => h (o.apply ctx) (ho ctx hI)

theorem deeper {P : α → Prop} {m : EvalAt α}
    (ho : ∀ ctx, I ctx → I { ctx with depth := ctx.depth + 1 }) (h : YieldsIn I P m) :
    YieldsIn I P (EvalMonad.deeper m) :=
  fun ctx hI => h _ (ho ctx hI)

theorem liftEval {P : α → Prop} {x : Eval α} (h : ∀ c a c', x.run.run c = (.ok a, c') → P a) :
    YieldsIn I P (EvalMonad.liftEval x) := by
  intro _ _ c a ha
  exact h c a _ (Prod.ext ha rfl)

theorem forIn_mem {γ : Type} {J : α → Prop} {f : γ → α → EvalAt (ForInStep α)} :
    ∀ (ts : List γ), (∀ t ∈ ts, ∀ a, J a → YieldsIn I (fun s => J s.value) (f t a)) →
      ∀ a, J a → YieldsIn I J (ForIn.forIn ts a f)
  | [], _, _, ha => pure ha
  | t :: ts, hf, a, ha => by
    rw [List.forIn_cons]
    refine bind (hf t List.mem_cons_self a ha) fun s hs => ?_
    cases s with
    | done b => exact pure hs
    | yield b => exact forIn_mem ts (fun t' ht' => hf t' (List.mem_cons_of_mem t ht')) b hs

theorem forIn_prefix {γ : Type} {J : List γ → α → Prop} {f : γ → α → EvalAt (ForInStep α)}
    {ts : List γ}
    (hf : ∀ done t a, t ∈ ts → J done a →
      YieldsIn I (fun s => ∃ b, s = .yield b ∧ J (done ++ [t]) b) (f t a)) :
    ∀ (rest done : List γ) (a : α), done ++ rest = ts → J done a →
      YieldsIn I (J ts) (ForIn.forIn rest a f)
  | [], done, _, hts, ha => by
    rw [List.append_nil] at hts
    exact pure (hts ▸ ha)
  | t :: rest, done, a, hts, ha => by
    rw [List.forIn_cons]
    have ht : t ∈ ts := hts ▸ List.mem_append_right done List.mem_cons_self
    refine bind (hf done t a ht ha) fun s hs => ?_
    obtain ⟨b, rfl, hb⟩ := hs
    exact forIn_prefix hf rest (done ++ [t]) b (by rw [List.append_assoc, List.singleton_append, hts]) hb

end YieldsIn

end EvalAt

namespace Shape

@[simp] theorem arity_set (a : Nat) : (Shape.set a).arity = a := rfl
@[simp] theorem arity_tuple (a : Nat) : (Shape.tuple a).arity = a := rfl
@[simp] theorem arity_member : Shape.member.arity = 1 := rfl

end Shape

namespace Value

@[simp] theorem conforms_boolean (b : Bool) : (Value.boolean b).Conforms .boolean := trivial
@[simp] theorem conforms_integer (n : Int) : (Value.integer n).Conforms .integer := trivial
@[simp] theorem conforms_float (x : Float) : (Value.float x).Conforms .float := trivial
@[simp] theorem conforms_float_scalar (x : Float) : (Value.float x).Conforms .scalar := trivial
@[simp] theorem conforms_string (s : String) : (Value.string s).Conforms .string := trivial

theorem conforms_elim {β : Type} {s : Shape} {x : Option β} {f : β → Value}
    (hnull : Value.null.Conforms s) (hf : ∀ b, (f b).Conforms s) : (x.elim .null f).Conforms s := by
  cases x
  . exact hnull
  . exact hf _

end Value

theorem Value.Conforms.memberLike {v : Value} {s : Shape} (hv : v.Conforms s)
    (hs : s.isMemberLike) :
    v = .null ∨ (∃ m, v = .member m ∧ s.arity = 1) ∨ ∃ t, v = .tuple t ∧ t.length = s.arity := by
  cases s <;> simp only [Shape.isMemberLike, Bool.false_eq_true] at hs
  . rcases hv.member with rfl | ⟨m, rfl⟩
    . exact .inl rfl
    . exact .inr (.inl ⟨m, rfl, rfl⟩)
  . obtain ⟨t, rfl, ht⟩ := hv.tuple
    exact .inr (.inr ⟨t, rfl, ht⟩)

theorem Category.Coerces.isScalar {c : Category} {s : Shape} (h : c.Coerces s) : c.isScalar := by
  -- only numbers, booleans and texts are coerced to
  cases c with
  | numeric | integer | boolean | string => rfl
  | _ => exact h.elim

theorem Node.ItemsTyped.single_of_mem {k : Nat} {items : List SetItem} (h : Node.ItemsTyped k items)
    {n : Node} (hn : SetItem.single n ∈ items) :
    n.Typed ∧ n.shape.isMemberLike ∧ n.shape.arity = k := by
  induction items with
  | nil => cases hn
  | cons item items ih =>
    obtain ⟨hitem, hrest⟩ := Node.itemsTyped_cons.mp h
    rcases List.mem_cons.mp hn with rfl | hn
    . simpa [Node.ItemsTyped] using hitem
    . exact ih hrest hn

theorem Node.ItemsTyped.splice_of_mem {k : Nat} {items : List SetItem} (h : Node.ItemsTyped k items)
    {a : SetArg} (ha : SetItem.splice a ∈ items) : Node.ArgTyped a ∧ Node.argArity a = k := by
  induction items with
  | nil => cases ha
  | cons item items ih =>
    obtain ⟨hitem, hrest⟩ := Node.itemsTyped_cons.mp h
    rcases List.mem_cons.mp ha with rfl | ha
    . simpa [Node.ItemsTyped] using hitem
    . exact ih hrest ha

theorem forall_mem_toList_push {γ : Type} {p : γ → Prop} {arr : Array γ} {u : γ}
    (harr : ∀ x ∈ arr.toList, p x) (hu : p u) : ∀ x ∈ (arr.push u).toList, p x := by
  intro x hx
  rw [Array.toList_push, List.mem_append, List.mem_singleton] at hx
  rcases hx with hx | rfl
  . exact harr x hx
  . exact hu

theorem length_of_mem_singles (ms : List Member) : ∀ t ∈ ms.map ([·]), t.length = 1 := by
  simp

namespace Env

open EvalAt

variable {env : Env}

/-- The tuples of a set all have `a` members. -/
def TuplesOf (a : Nat) (s : TupleSet) : Prop := ∀ t ∈ s.toList, t.length = a

/-- At nesting bound `fuel`, from a context whose slicer holds single members: a typed node
gives a value of its shape, a typed set node tuples of its arity in whichever representation is
asked for, a typed set operand tuples of its arity, and the current cell a scalar. -/
structure ConformsAt (env : Env) (fuel : Nat) : Prop where
  eval : ∀ node : Node, node.Typed →
    YieldsIn Context.UnarySlicer (·.Conforms node.shape) (env.eval fuel node)
  evalSet : ∀ (node : Node) (style : ResultStyle), node.Typed → node.shape.category = .set →
    YieldsIn Context.UnarySlicer (TuplesOf node.shape.arity) (env.evalSet fuel node style)
  evalArg : ∀ a : SetArg, Node.ArgTyped a →
    YieldsIn Context.UnarySlicer (TuplesOf (Node.argArity a)) (env.evalArg fuel a)
  cellValue : YieldsIn Context.UnarySlicer (·.Conforms .scalar) (env.cellValue fuel)

namespace TuplesOf

theorem deliver {a : Nat} {ts : List Tuple} (h : ∀ t ∈ ts, t.length = a) (style : ResultStyle) :
    TuplesOf a (TupleSet.deliver ts style) := by
  intro t ht
  rw [TupleSet.toList_deliver] at ht
  exact h t ht

theorem adapt {a : Nat} {s : TupleSet} (h : TuplesOf a s) (style : ResultStyle) :
    TuplesOf a (s.adapt style) := by
  intro t ht
  rw [TupleSet.toList_adapt] at ht
  exact h t ht

theorem iterable {a : Nat} {s : TupleStream} (h : ∀ t ∈ s.toList, t.length = a) :
    TuplesOf a (.iterable s) := by
  intro t ht
  rw [TupleSet.toList, TupleStream.collect_eq_toList] at ht
  exact h t ht

end TuplesOf

theorem conformsAt_zero (env : Env) : ConformsAt env 0 := by
  refine ⟨fun _ _ => ?_, fun _ _ _ _ => ?_, fun _ _ => ?_, ?_⟩
  all_goals simp only [Env.eval, Env.evalSet, Env.evalArg, Env.cellValue]
  all_goals exact YieldsIn.throw _

theorem loadCell_conforms (ctx : Context) :
    Yields (·.Conforms .scalar) (liftEval (env.loadCell ctx) : EvalAt Value) := by
  intro _ c v hv
  have hcube : ∀ v, env.cube.loadCell ctx.coordinate = .ok v → v.Conforms .float := by
    intro v h
    unfold Cube.loadCell at h
    simp only at h
    -- a coordinate without a measure, or with a calculated member, loads nothing
    split at h
    . split at h
      . cases h
      . obtain ⟨_, -, h⟩ := bind_eq_ok.mp h
        cases h
        exact Value.conforms_ofOptFloat _
    . cases h
  change ((Eval.lift (env.cube.loadCell ctx.coordinate)).run.run _).1 = .ok v at hv
  cases hl : env.cube.loadCell ctx.coordinate with
  | error e => rw [hl] at hv; cases hv
  | ok w =>
    rw [hl] at hv
    cases hv
    exact (hcube _ hl).fits (Or.inr (Or.inr ⟨rfl, rfl⟩))

theorem generateLimited_arity {I : Context → Prop} {a : Nat} {l : Limiter} (hl : l.HasArity a)
    (source : TupleSet) {each : Tuple → EvalAt TupleSet}
    (heach : ∀ t, YieldsIn I (TuplesOf a) (each t)) (all : Bool) :
    YieldsIn I (Limiter.HasArity a) (env.generateLimited l source each all) := by
  simp only [generateLimited, TupleStream.forIn_eq_forIn_toList]
  refine YieldsIn.bind (YieldsIn.forIn_mem (J := fun b : Limiter × List Tuple => b.1.HasArity a) _
    (fun t _ b hb => ?_) (l, []) hl) fun b hb => YieldsIn.pure hb
  refine YieldsIn.bind YieldsIn.trivial fun _ _ => YieldsIn.bind (heach t) fun gen hgen => ?_
  refine YieldsIn.bind (YieldsIn.forIn_mem (J := fun b : Limiter × List Tuple => b.1.HasArity a) _
    (fun item hitem b' hb' => ?_) b hb) fun _ h => YieldsIn.pure h
  have hpush : ∀ seen, YieldsIn I (fun s : ForInStep (Limiter × List Tuple) => s.value.1.HasArity a)
      (liftExcept (b'.1.push item) >>= fun l => Pure.pure (ForInStep.yield (l, seen))) :=
    fun _ => YieldsIn.bind (YieldsIn.of_yields (hb'.push_yields (hgen item hitem)))
      fun _ h => YieldsIn.pure h
  split
  . exact hpush _
  . split
    . exact hpush _
    . exact YieldsIn.pure hb'

namespace ConformsAt

variable {fuel : Nat}

theorem cellValue_succ (ht : env.functions.Typed) (ih : ConformsAt env fuel) :
    YieldsIn Context.UnarySlicer (·.Conforms .scalar) (env.cellValue (fuel + 1)) := by
  simp only [Env.cellValue]
  refine YieldsIn.bind YieldsIn.trivial fun _ _ => YieldsIn.read fun ctx _ => ?_
  split
  . exact YieldsIn.of_yields (loadCell_conforms ctx)
  . split
    . exact YieldsIn.throw _
    . -- the formula of the leading calculated member is a typed scalar
      refine YieldsIn.bind (YieldsIn.liftEval fun _ _ _ h => formulaNode_typed ht h)
        fun node hnode => ?_
      exact (YieldsIn.deeper (fun _ h => h.descend) (ih.eval node hnode.1)).imp
        fun _ hv => hv.fits (Or.inr (Or.inr ⟨hnode.2, rfl⟩))

theorem evalArg_succ (ih : ConformsAt env fuel) (a : SetArg) (ha : Node.ArgTyped a) :
    YieldsIn Context.UnarySlicer (TuplesOf (Node.argArity a)) (env.evalArg (fuel + 1) a) := by
  cases a with
  | mk n style =>
    simp only [Env.evalArg]
    refine YieldsIn.bind (ih.evalSet n style ha.1 ha.2) fun s hs => YieldsIn.pure ?_
    intro t ht
    rw [TupleSet.toList_adapt] at ht
    exact hs t ht

theorem eval_succ (ih : ConformsAt env fuel) (node : Node) (htyped : node.Typed) :
    YieldsIn Context.UnarySlicer (·.Conforms node.shape) (env.eval (fuel + 1) node) := by
  cases node
  all_goals simp only [Node.Typed] at htyped
  -- a set node is evaluated as a set and handed over as a list
  case levelMembers | children | enumerate | singleton | crossJoin | filter | topCount | head
    | order | generate =>
    simp only [Env.eval]
    exact YieldsIn.bind (ih.evalSet _ .list htyped rfl) fun _ hs => YieldsIn.pure hs
  all_goals simp only [Env.eval, Node.shape]
  case const => exact YieldsIn.pure htyped
  case currentMember =>
    exact YieldsIn.read fun _ _ => YieldsIn.pure (Value.conforms_elim trivial fun _ => trivial)
  case slicer =>
    -- the slicer's tuples are single members
    exact YieldsIn.read fun ctx hctx => YieldsIn.pure fun t ht => htyped ▸ hctx t ht
  case tuple ns =>
    -- one member is pushed per operand
    refine YieldsIn.bind (YieldsIn.forIn_prefix (J := fun done (arr : Array Member) =>
      arr.size = done.length) (fun done n arr _ hsize => ?_) ns [] #[] (List.nil_append ns) rfl)
      fun arr hsize => YieldsIn.pure (by simpa [Value.Conforms] using hsize)
    refine YieldsIn.bind YieldsIn.trivial fun _ _ => YieldsIn.bind YieldsIn.trivial fun m _ => ?_
    split
    . exact YieldsIn.bind (P := fun _ => False) (YieldsIn.throw _) fun _ h => h.elim
    . exact YieldsIn.pure ⟨_, rfl, by simp [hsize]⟩
  case iif c t e s =>
    obtain ⟨-, ⟨ht, hts⟩, ⟨he, hes⟩, -⟩ := htyped
    refine YieldsIn.bind YieldsIn.trivial fun _ _ => YieldsIn.bind YieldsIn.trivial fun _ _ => ?_
    split
    . exact (ih.eval t ht).imp fun _ hv => hv.fits hts
    . exact (ih.eval e he).imp fun _ hv => hv.fits hes
  case coalesce ns s =>
    -- the first value that is not null, taken from an operand whose shape fits
    have hall := Node.fitsTyped_iff.mp htyped.1
    refine YieldsIn.bind (YieldsIn.forIn_mem (J := fun st : Option Value × Unit =>
      ∀ v, st.1 = some v → v.Conforms s) ns (fun n hn _ _ => ?_) _ fun _ h => by cases h)
      fun st hst => ?_
    . refine YieldsIn.bind ((ih.eval n (hall n hn).1).imp fun _ hv => hv.fits (hall n hn).2)
        fun v hv => ?_
      split
      . exact YieldsIn.pure fun _ h => by cases h; exact hv
      . exact YieldsIn.pure fun _ h => by cases h
    . split
      . next r hr => exact YieldsIn.pure (hst r hr)
      . exact YieldsIn.pure (Value.conforms_null htyped.2)
  case coerce n target =>
    obtain ⟨-, hcoerce⟩ := htyped
    refine YieldsIn.bind YieldsIn.trivial fun _ _ => ?_
    -- a coercion targets one of four categories: the others are not typed
    cases target
    all_goals simp only [Category.Coerces] at hcoerce
    all_goals simp only [Shape.convertedTo]
    case numeric =>
      rw [if_neg (by simpa using hcoerce)]
      exact YieldsIn.bind YieldsIn.trivial fun _ _ => YieldsIn.pure (Value.conforms_ofOptFloat _)
    case integer | boolean | string =>
      exact YieldsIn.bind YieldsIn.trivial fun _ _ =>
        YieldsIn.pure (Value.conforms_elim trivial fun _ => trivial)
  case memberValue =>
    refine YieldsIn.bind YieldsIn.trivial fun _ _ => YieldsIn.bind YieldsIn.trivial fun t _ => ?_
    exact YieldsIn.within _ (fun _ h => h.apply _) ih.cellValue
  case compare =>
    exact YieldsIn.bind YieldsIn.trivial fun _ _ => YieldsIn.bind YieldsIn.trivial fun _ _ =>
      YieldsIn.liftExcept fun _ h => compareValues_conforms h
  case memberConst => exact YieldsIn.pure trivial
  case memberToTuple =>
    exact YieldsIn.bind YieldsIn.trivial fun _ _ => YieldsIn.bind YieldsIn.trivial fun _ _ =>
      YieldsIn.pure rfl
  -- each operator builds a value of its own shape from its operands
  case parent =>
    exact YieldsIn.bind YieldsIn.trivial fun _ _ => YieldsIn.bind YieldsIn.trivial fun _ _ =>
      YieldsIn.pure (Value.conforms_elim trivial fun _ => trivial)
  case memberName =>
    exact YieldsIn.bind YieldsIn.trivial fun _ _ => YieldsIn.bind YieldsIn.trivial fun _ _ =>
      YieldsIn.pure (Value.conforms_string _)
  case negate =>
    exact YieldsIn.bind YieldsIn.trivial fun _ _ => YieldsIn.bind YieldsIn.trivial fun _ _ =>
      YieldsIn.pure (Value.conforms_ofOptFloat _)
  case not =>
    exact YieldsIn.bind YieldsIn.trivial fun _ _ => YieldsIn.bind YieldsIn.trivial fun _ _ =>
      YieldsIn.pure (Value.conforms_boolean _)
  case truncate | toText =>
    exact YieldsIn.bind YieldsIn.trivial fun _ _ => YieldsIn.bind YieldsIn.trivial fun _ _ =>
      YieldsIn.pure (Value.conforms_elim trivial fun _ => trivial)
  case isEmpty => exact YieldsIn.bind YieldsIn.trivial fun _ _ => YieldsIn.pure (Value.conforms_boolean _)
  case format => exact YieldsIn.bind YieldsIn.trivial fun _ _ => YieldsIn.pure (Value.conforms_string _)
  case formatWith =>
    exact YieldsIn.bind YieldsIn.trivial fun _ _ => YieldsIn.bind YieldsIn.trivial fun _ _ =>
      YieldsIn.bind YieldsIn.trivial fun _ _ => YieldsIn.pure (Value.conforms_string _)
  case arith =>
    refine YieldsIn.bind YieldsIn.trivial fun _ _ => YieldsIn.bind YieldsIn.trivial fun _ _ => ?_
    split
    . exact YieldsIn.pure (Value.conforms_null rfl)
    . exact YieldsIn.bind YieldsIn.trivial fun _ _ => YieldsIn.bind YieldsIn.trivial fun _ _ =>
        YieldsIn.bind YieldsIn.trivial fun _ _ => YieldsIn.pure (Value.conforms_ofOptFloat _)
  case logical =>
    refine YieldsIn.bind YieldsIn.trivial fun _ _ => YieldsIn.bind YieldsIn.trivial fun _ _ => ?_
    split
    . exact YieldsIn.pure (Value.conforms_boolean _)
    . exact YieldsIn.bind YieldsIn.trivial fun _ _ => YieldsIn.bind YieldsIn.trivial fun _ _ =>
        YieldsIn.pure (Value.conforms_boolean _)
  -- the aggregates give a number, or null for nothing to aggregate
  case sum =>
    refine YieldsIn.bind YieldsIn.trivial fun _ _ => ?_
    split
    . exact YieldsIn.pure (Value.conforms_float _)
    split
    . exact YieldsIn.pure (Value.conforms_null rfl)
    . exact YieldsIn.pure (Value.conforms_float _)
  case avg | dispersion =>
    exact YieldsIn.bind YieldsIn.trivial fun _ _ => YieldsIn.pure (Value.conforms_ofOptFloat _)
  case extremum =>
    refine YieldsIn.bind YieldsIn.trivial fun _ _ => ?_
    split
    . exact YieldsIn.pure (Value.conforms_null rfl)
    . exact YieldsIn.pure (Value.conforms_float _)
  case pairwise =>
    refine YieldsIn.bind YieldsIn.trivial fun _ _ => ?_
    split
    . exact YieldsIn.pure (Value.conforms_ofOptFloat _)
    . exact YieldsIn.pure (Value.conforms_ofOptFloat _)
  case aggregate =>
    refine YieldsIn.read fun _ _ => YieldsIn.bind YieldsIn.trivial fun _ _ => ?_
    split
    . exact YieldsIn.pure (Value.conforms_null rfl)
    . exact YieldsIn.pure (Value.conforms_float_scalar _)
  case count =>
    split
    . exact YieldsIn.bind (YieldsIn.within _ (fun _ h => h.apply _) YieldsIn.trivial) fun _ _ =>
        YieldsIn.pure (Value.conforms_integer _)
    . exact YieldsIn.within _ (fun _ h => h.apply _) (YieldsIn.bind YieldsIn.trivial fun _ _ =>
        YieldsIn.bind YieldsIn.trivial fun _ _ => YieldsIn.pure (Value.conforms_integer _))
  case percentile =>
    -- the share is read first, from the percent operand when there is one
    split
    case' h_1 => refine YieldsIn.bind YieldsIn.trivial fun _ _ => ?_
    case' h_2 =>
      refine YieldsIn.bind YieldsIn.trivial fun _ _ => YieldsIn.bind YieldsIn.trivial fun _ _ =>
        YieldsIn.bind YieldsIn.trivial fun _ _ => ?_
    all_goals
      split
      . exact YieldsIn.pure (Value.conforms_null rfl)
      . exact YieldsIn.bind YieldsIn.trivial fun _ _ => YieldsIn.pure (Value.conforms_ofOptFloat _)
  case regression =>
    -- the forecast point is read first, when there is one, and the fit is made after it
    split
    case' h_1 => refine YieldsIn.bind YieldsIn.trivial fun _ _ => ?_
    case' h_2 =>
      refine YieldsIn.bind YieldsIn.trivial fun _ _ => YieldsIn.bind YieldsIn.trivial fun _ _ => ?_
      split
      all_goals refine YieldsIn.bind YieldsIn.trivial fun _ _ => ?_
    all_goals
      split
      . exact YieldsIn.pure (Value.conforms_null rfl)
      refine YieldsIn.bind YieldsIn.trivial fun _ _ => ?_
      split
      . exact YieldsIn.pure (Value.conforms_null rfl)
      . exact YieldsIn.pure (Value.conforms_ofOptFloat _)

theorem evalSet_succ (ih : ConformsAt env fuel) (node : Node) (style : ResultStyle)
    (htyped : node.Typed) (hset : node.shape.category = .set) :
    YieldsIn Context.UnarySlicer (TuplesOf node.shape.arity) (env.evalSet (fuel + 1) node style) := by
  cases node
  all_goals simp only [Node.Typed] at htyped
  -- nodes of scalar, member and tuple shapes are not asked for sets
  case memberConst | currentMember | parent | memberName | tuple | memberToTuple | arith | negate
    | compare | logical | not | isEmpty | format | formatWith | truncate | toText | memberValue
    | sum | avg | extremum | percentile | dispersion | regression | pairwise | count | aggregate =>
    simp [Node.shape, Shape.category] at hset
  case iif => exact absurd hset (Shape.category_ne_set_of_isScalar htyped.2.2.2)
  case coalesce => exact absurd hset (Shape.category_ne_set_of_isScalar htyped.2)
  case coerce n target =>
    exact absurd hset (Shape.category_ne_set_of_isScalar
      (Shape.convertedTo_isScalar _ (Category.Coerces.isScalar htyped.2)))
  all_goals simp only [Env.evalSet, Node.shape]
  case const v sh =>
    -- a constant of a set shape is a set of that arity
    obtain ⟨a, rfl⟩ : ∃ a, sh = .set a := by
      cases sh <;> simp [Node.shape, Shape.category] at hset
      exact ⟨_, rfl⟩
    refine YieldsIn.bind (ih.eval _ htyped) fun v hv => ?_
    obtain ⟨ts, rfl, hts⟩ := Value.Conforms.set hv
    exact YieldsIn.pure (TuplesOf.adapt (s := .list ts) hts style)
  case levelMembers =>
    exact YieldsIn.bind YieldsIn.trivial fun ms _ =>
      YieldsIn.pure (TuplesOf.deliver (length_of_mem_singles ms) style)
  case children =>
    refine YieldsIn.bind YieldsIn.trivial fun _ _ => ?_
    split
    . exact YieldsIn.pure (TuplesOf.deliver (length_of_mem_singles _) style)
    . exact YieldsIn.pure (TuplesOf.deliver (fun _ h => by cases h) style)
    . exact YieldsIn.throw _
  case singleton n =>
    refine YieldsIn.bind (ih.eval n htyped.1) fun v hv => ?_
    rcases Value.Conforms.memberLike hv htyped.2 with rfl | ⟨m, rfl, ha⟩ | ⟨t, rfl, ht⟩
    . exact YieldsIn.pure (TuplesOf.deliver (fun _ h => by cases h) style)
    . exact YieldsIn.pure (TuplesOf.deliver (by simpa using ha.symm) style)
    . exact YieldsIn.pure (TuplesOf.deliver (by simpa using ht) style)
  case slicer =>
    -- the slicer's tuples are single members
    exact YieldsIn.read fun ctx hctx =>
      YieldsIn.pure (TuplesOf.adapt (fun t ht => htyped ▸ hctx t ht) style)
  case enumerate items k =>
    refine YieldsIn.bind (YieldsIn.forIn_mem (J := fun arr : Array Tuple =>
      ∀ t ∈ arr.toList, t.length = k) items (fun item hitem arr harr => ?_) #[] (by simp))
      fun arr harr => YieldsIn.pure (TuplesOf.deliver harr style)
    cases item with
    | single n =>
      -- a member or a tuple of the set's arity, or nothing for null
      obtain ⟨hn, hlike, hk⟩ := htyped.single_of_mem hitem
      refine YieldsIn.bind (ih.eval n hn) fun v hv => ?_
      rcases Value.Conforms.memberLike hv hlike with rfl | ⟨m, rfl, ha⟩ | ⟨t, rfl, ht⟩
      . exact YieldsIn.pure harr
      . exact YieldsIn.pure (forall_mem_toList_push harr (by simpa [← hk] using ha.symm))
      . exact YieldsIn.pure (forall_mem_toList_push harr (ht.trans hk))
    | splice a =>
      -- a set of the set's arity, spliced in tuple by tuple
      obtain ⟨ha, hk⟩ := htyped.splice_of_mem hitem
      refine YieldsIn.bind (ih.evalArg a ha) fun s hs => ?_
      rw [TupleStream.forIn_eq_forIn_toList]
      refine YieldsIn.bind (YieldsIn.forIn_mem (J := fun arr : Array Tuple =>
        ∀ t ∈ arr.toList, t.length = k) _ (fun t ht arr' harr' => ?_) arr harr)
        fun arr' harr' => YieldsIn.pure harr'
      rw [TupleSet.toList_stream] at ht
      exact YieldsIn.pure (forall_mem_toList_push harr' ((hs t ht).trans hk))
  case crossJoin args site force =>
    have hargs := Node.argsTyped_iff.mp htyped.1
    refine YieldsIn.read fun ctx _ =>
      YieldsIn.bind (YieldsIn.of_yields (env.dispatch_arity htyped.2 fuel _)) fun r hr => ?_
    split
    . next ts => exact YieldsIn.pure (TuplesOf.deliver (hr ts rfl) style)
    -- in memory: each operand's tuples have its arity, so the product's have their sum
    refine YieldsIn.bind (YieldsIn.forIn_prefix (J := fun done (lists : Array (List Tuple)) =>
      List.Forall₂ (fun l a => ∀ t ∈ l, t.length = Node.argArity a) lists.toList done)
      (fun done a lists ha hJ => ?_) args [] #[] (List.nil_append args) List.Forall₂.nil)
      fun lists hlists => ?_
    . refine YieldsIn.bind (ih.evalArg a (hargs a ha)) fun s hs => YieldsIn.pure ⟨_, rfl, ?_⟩
      rw [Array.toList_push]
      exact List.rel_append hJ (List.Forall₂.cons hs List.Forall₂.nil)
    have hprod : ∀ t ∈ (TupleStream.product lists.toList).toList,
        t.length = Node.totalArity args := by
      rw [Node.totalArity_eq]
      exact length_of_mem_cartesian (List.forall₂_map_right_iff.mpr hlists)
    split
    . -- the whole product, within the result limit
      split
      . exact YieldsIn.bind (P := fun _ => False) (YieldsIn.throw _) fun _ h => h.elim
      split
      . exact YieldsIn.pure (TuplesOf.iterable hprod)
      rw [TupleStream.forIn_eq_forIn_toList]
      refine YieldsIn.bind (YieldsIn.forIn_mem (J := fun arr : Array Tuple =>
        ∀ t ∈ arr.toList, t.length = Node.totalArity args) _ (fun t ht arr harr => ?_) #[] (by simp))
        fun arr harr => YieldsIn.pure (TuplesOf.deliver harr style)
      exact YieldsIn.bind YieldsIn.trivial fun _ _ =>
        YieldsIn.pure (forall_mem_toList_push harr (hprod t ht))
    . -- the non-empty tuples of the product, through the limiter
      refine YieldsIn.within _ (fun _ h => h.apply _) ?_
      exact YieldsIn.bind (YieldsIn.of_yields
        (env.keepLimited_arity (Limiter.HasArity.empty _ _) _ hprod _))
        fun l hl => YieldsIn.pure (TuplesOf.deliver hl style)
  case filter set cond site =>
    refine YieldsIn.bind (YieldsIn.of_yields (env.dispatch_arity htyped.2.2 fuel false))
      fun r hr => ?_
    split
    . next ts => exact YieldsIn.pure (TuplesOf.deliver (hr ts rfl) style)
    refine YieldsIn.bind (ih.evalArg set htyped.1) fun s hs => ?_
    rw [TupleStream.forIn_eq_forIn_toList]
    refine YieldsIn.bind (YieldsIn.forIn_mem (J := fun arr : Array Tuple =>
      ∀ t ∈ arr.toList, t.length = Node.argArity set) _ (fun t ht arr harr => ?_) #[] (by simp))
      fun arr harr => YieldsIn.pure (TuplesOf.deliver harr style)
    rw [TupleSet.toList_stream] at ht
    refine YieldsIn.bind YieldsIn.trivial fun _ _ => YieldsIn.bind YieldsIn.trivial fun _ _ => ?_
    split
    . exact YieldsIn.pure (forall_mem_toList_push harr (hs t ht))
    . exact YieldsIn.pure harr
  case topCount set count measure site top =>
    obtain ⟨hsetTyped, -, -, hsite⟩ := htyped
    -- a native site's tuples, or nothing, to evaluate in memory; the rest is common
    cases site
    case' none =>
      refine YieldsIn.bind (YieldsIn.pure (P := fun r : Option (List Tuple) =>
        ∀ ts, r = some ts → ∀ t ∈ ts, t.length = Node.argArity set) fun _ h => by cases h)
        fun r hr => ?_
    case' some site =>
      refine YieldsIn.bind (YieldsIn.of_yields (env.dispatch_arity (hsite _ rfl) fuel false))
        fun r hr => ?_
    all_goals
      split
      . next ts => exact YieldsIn.pure (TuplesOf.deliver (hr ts rfl) style)
      refine YieldsIn.bind YieldsIn.trivial fun _ _ => YieldsIn.bind YieldsIn.trivial fun _ _ => ?_
      refine YieldsIn.bind (ih.evalArg set hsetTyped) fun s hs => ?_
      split
      . exact YieldsIn.pure (TuplesOf.deliver (fun t ht => hs t (List.mem_of_mem_take ht)) style)
      -- each tuple paired with its key; sorting and taking keep the tuples
      refine YieldsIn.bind (YieldsIn.forIn_mem (J := fun arr : Array (Option Float × Tuple) =>
        ∀ p ∈ arr.toList, p.2.length = Node.argArity set) _ (fun t ht arr harr => ?_) #[] (by simp))
        fun arr harr => YieldsIn.pure (TuplesOf.deliver ?_ style)
      . exact YieldsIn.bind YieldsIn.trivial fun _ _ => YieldsIn.bind YieldsIn.trivial fun _ _ =>
          YieldsIn.pure (forall_mem_toList_push harr (hs t ht))
      . intro t ht
        obtain ⟨p, hp, rfl⟩ := List.mem_map.mp ht
        have hp := List.mem_of_mem_take hp
        split at hp <;> exact harr p (List.mem_mergeSort.mp hp)
  case head set count =>
    -- the first k tuples of the operand, whichever k the count gives
    have htail : ∀ k, YieldsIn Context.UnarySlicer (TuplesOf (Node.argArity set))
        (env.evalArg fuel set >>= fun s =>
          if style == .iterable then pure (TupleSet.iterable (.take k s.stream))
          else pure (TupleSet.deliver (TupleStream.take k s.stream).collect style)) := by
      intro k
      refine YieldsIn.bind (ih.evalArg set htyped.1) fun s hs => ?_
      have htake : ∀ t ∈ (TupleStream.take k s.stream).toList, t.length = Node.argArity set := by
        intro t ht
        rw [TupleStream.toList, TupleSet.toList_stream] at ht
        exact hs t (List.mem_of_mem_take ht)
      split
      . exact YieldsIn.pure (TuplesOf.iterable htake)
      . rw [TupleStream.collect_eq_toList]
        exact YieldsIn.pure (TuplesOf.deliver htake style)
    split
    . exact YieldsIn.bind YieldsIn.trivial fun _ _ => YieldsIn.bind YieldsIn.trivial fun _ _ =>
        YieldsIn.bind YieldsIn.trivial fun k _ => htail k
    . exact YieldsIn.bind YieldsIn.trivial fun k _ => htail k
  case order set key descending =>
    refine YieldsIn.bind (ih.evalArg set htyped.1) fun s hs => ?_
    -- each tuple paired with its key; sorting keeps the tuples
    refine YieldsIn.bind (YieldsIn.forIn_mem (J := fun arr : Array (Value × Tuple) =>
      ∀ p ∈ arr.toList, p.2.length = Node.argArity set) _ (fun t ht arr harr => ?_) #[] (by simp))
      fun arr harr => YieldsIn.pure (TuplesOf.deliver ?_ style)
    . exact YieldsIn.bind YieldsIn.trivial fun _ _ => YieldsIn.bind YieldsIn.trivial fun _ _ =>
        YieldsIn.pure (forall_mem_toList_push harr (hs t ht))
    . intro t ht
      obtain ⟨p, hp, rfl⟩ := List.mem_map.mp ht
      split at hp <;> exact harr p (List.mem_mergeSort.mp hp)
  case generate source each all =>
    refine YieldsIn.bind YieldsIn.trivial fun s _ => ?_
    exact YieldsIn.bind (env.generateLimited_arity (Limiter.HasArity.empty _ _) s
      (fun t => YieldsIn.within _ (fun _ h => h.apply _) (ih.evalArg each htyped.2)) all)
      fun l hl => YieldsIn.pure (TuplesOf.deliver hl style)

theorem succ (ht : env.functions.Typed) (ih : ConformsAt env fuel) : ConformsAt env (fuel + 1) :=
  ⟨ih.eval_succ, ih.evalSet_succ, ih.evalArg_succ, ih.cellValue_succ ht⟩

end ConformsAt

theorem conformsAt (ht : env.functions.Typed) : ∀ fuel, ConformsAt env fuel
  | 0 => conformsAt_zero env
  | fuel + 1 => (conformsAt ht fuel).succ ht

/-- Evaluation respects static shapes. Over a typed function table, such as the builtins, from
every context whose slicer tuples hold one member each: a node compiled from any expression
gives a value of its shape, and a set node, in whichever representation is asked for, tuples of
its arity; a compiled set operand gives tuples of its arity. -/
theorem compiled_node_conforms (ht : env.functions.Typed) :
    (∀ e c node, env.functions.compile e c = .ok node →
      YieldsIn Context.UnarySlicer (·.Conforms node.shape) (env.value node : EvalAt Value) ∧
      (node.shape.category = .set → ∀ style, YieldsIn Context.UnarySlicer
        (TuplesOf node.shape.arity) (env.evalSet evalFuel node style : EvalAt TupleSet))) ∧
    ∀ e accepts a, env.functions.compileSet e accepts = .ok a →
      YieldsIn Context.UnarySlicer (TuplesOf (Node.argArity a)) (env.setValue a : EvalAt TupleSet) := by
  have hconf := conformsAt ht evalFuel
  refine ⟨fun e c node hc => ?_, fun e accepts a hc => ?_⟩
  . have hn := (FunctionTable.compile_typed ht hc).1
    exact ⟨hconf.eval node hn, fun hset style => hconf.evalSet node style hn hset⟩
  . exact hconf.evalArg a (FunctionTable.compileSet_typed ht hc)

/-- The builtins' slicer operand gives single members from a slicer of single members. -/
theorem compiled_node_conforms_slicer :
    let env : Env := ⟨default, FunctionTable.builtins, {}, false, false⟩
    ∃ a, env.functions.compileSet (.call FunctionTable.slicerFunction .function [])
        ResultStyle.randomAccess = .ok a ∧ Node.argArity a = 1 ∧
      YieldsIn Context.UnarySlicer (TuplesOf (Node.argArity a)) (env.setValue a : EvalAt TupleSet) := by
  intro env
  have hok : (env.functions.compileSet (.call FunctionTable.slicerFunction .function [])
      ResultStyle.randomAccess).toOption.map Node.argArity = some 1 := by decide +kernel
  cases ha : env.functions.compileSet (.call FunctionTable.slicerFunction .function [])
      ResultStyle.randomAccess with
  | error err =>
    rw [ha] at hok
    cases hok
  | ok a =>
    rw [ha] at hok
    exact ⟨a, rfl, Option.some.inj hok,
      (compiled_node_conforms FunctionTable.builtins_typed).2 _ _ a ha⟩

/-- A slicer of two-member tuples, as a query slicing on two hierarchies places it, makes the
slicer operand, typed as single members, hand out tuples of two. -/
theorem slicer_tuples_exceed_arity :
    (FunctionTable.builtins.compileSet (.call FunctionTable.slicerFunction .function [])
        ResultStyle.randomAccess).toOption.map Node.argArity = some 1 ∧
    (Presets.sales.toOption.bind fun cube => do
      let drink ← cube.resolve? "[Product].[All].[Drink]"
      let year ← cube.resolve? "[Time].[All].[2024]"
      let arg ← (FunctionTable.builtins.compileSet (.call FunctionTable.slicerFunction .function [])
        ResultStyle.randomAccess).toOption
      let ctx : Context := { Context.initial cube with slicer := [[drink, year]] }
      (((((⟨cube, .builtins, {}, false, false⟩ : Env).setValue arg : EvalAt TupleSet).run ctx).run.run
        {}).1.toOption.map fun s => s.toList.map fun t => t.map Member.uniqueName)) =
      some [["[Product].[All].[Drink]", "[Time].[All].[2024]"]] := by
  decide +kernel

end Env

end OlapCalc
