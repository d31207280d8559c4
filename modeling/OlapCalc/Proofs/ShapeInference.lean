import Mathlib.Data.List.Forall2
import OlapCalc.Node.Compile

/-!
Shape inference agrees with compilation.

`Compiler.shapeOf` predicts an expression's shape from the function table alone, and overload
resolution of an enclosing call relies on it. The main statement says the prediction is what
compilation builds: a node compiled to a category has the inferred shape converted to that
category, through a conversion that has a cost; and compilation fails for want of a conversion
only when the inferred shape has none to the category asked for.

It holds of every table whose implementations build what their descriptors predict
(`FunctionTable.Coherent`), the built-in table among them. The proof runs over the compiler's
mutual functions one fuel level at a time (`ShapesAt`), with a postcondition on both outcomes of
a computation in `Except` (`Except.Ensures`).
-/

namespace Except

variable {ε α β : Type}

/-- `x` satisfies `P` when it succeeds and `Q` when it fails. -/
def Ensures (P : α → Prop) (Q : ε → Prop) : Except ε α → Prop
  | .ok a => P a
  | .error e => Q e

@[simp] theorem ok_bind (a : α) (f : α → Except ε β) : (Except.ok a >>= f) = f a := rfl

@[simp] theorem error_bind (e : ε) (f : α → Except ε β) :
    (Except.error e >>= f) = Except.error e := rfl

namespace Ensures

variable {P P' : α → Prop} {Q : ε → Prop} {x : Except ε α}

theorem pure {a : α} (h : P a) : Ensures P Q (Pure.pure a) := h

theorem throw {e : ε} (h : Q e) : Ensures P Q (MonadExcept.throw e : Except ε α) := h

theorem bind {f : α → Except ε β} {R : β → Prop} (hx : Ensures P Q x)
    (hf : ∀ a, P a → Ensures R Q (f a)) : Ensures R Q (x >>= f) := by
  cases x with
  | error e => exact hx
  | ok a => exact hf a hx

theorem map {f : α → β} {R : β → Prop} (hx : Ensures P Q x) (hf : ∀ a, P a → R (f a)) :
    Ensures R Q (f <$> x) := by
  cases x with
  | error e => exact hx
  | ok a => exact hf a hx

theorem mono (h : Ensures P Q x) (hP : ∀ a, P a → P' a) : Ensures P' Q x := by
  cases x with
  | error e => exact h
  | ok a => exact hP a h

theorem of_ok {a : α} (h : Ensures P Q x) (hx : x = .ok a) : P a := by
  subst hx
  exact h

theorem of_error {e : ε} (h : Ensures P Q x) (hx : x = .error e) : Q e := by
  subst hx
  exact h

theorem throw_bind {e : ε} {f : α → Except ε β} {R : β → Prop} (h : Q e) :
    Ensures R Q (MonadExcept.throw e >>= f) := h

theorem pure_bind {a : α} {f : α → Except ε β} {R : β → Prop} (h : Ensures R Q (f a)) :
    Ensures R Q (Pure.pure a >>= f) := h

theorem mapM {f : α → Except ε β} :
    ∀ {xs : List α}, (∀ x ∈ xs, Ensures (fun _ => True) Q (f x)) →
      Ensures (fun _ => True) Q (xs.mapM f)
  | [], _ => trivial
  | x :: xs, h => by
    rw [List.mapM_cons]
    refine bind (h x List.mem_cons_self) fun _ _ => ?_
    refine bind (mapM fun y hy => h y (List.mem_cons_of_mem x hy)) fun _ _ => ?_
    exact pure trivial

end Ensures

end Except

namespace List

theorem forall₂_of_mapM_eq_ok {ε α β : Type} {f : α → Except ε β} :
    ∀ {xs : List α} {ys : List β}, xs.mapM f = .ok ys → Forall₂ (fun x y => f x = .ok y) xs ys
  | [], ys, h => by
    cases h
    exact .nil
  | x :: xs, ys, h => by
    rw [List.mapM_cons] at h
    cases hx : f x with
    | error e => simp [hx] at h
    | ok y =>
      cases hxs : xs.mapM f with
      | error e => simp [hx, hxs] at h
      | ok ys' =>
        simp only [hx, hxs] at h
        cases h
        exact .cons hx (forall₂_of_mapM_eq_ok hxs)

theorem mapM_eq_ok_of_forall₂ {ε α β : Type} {f : α → Except ε β} :
    ∀ {xs : List α} {ys : List β}, Forall₂ (fun x y => f x = .ok y) xs ys → xs.mapM f = .ok ys
  | _, _, .nil => rfl
  | _, _, .cons hx hxs => by
    rw [List.mapM_cons, hx, mapM_eq_ok_of_forall₂ hxs]
    rfl

theorem isSome_of_mapM_eq_some {α β : Type} {f : α → Option β} :
    ∀ {xs : List α} {ys : List β}, xs.mapM f = some ys → ∀ x ∈ xs, (f x).isSome
  | [], _, _, _, hx => absurd hx List.not_mem_nil
  | y :: xs, ys, h, x, hx => by
    rw [List.mapM_cons] at h
    cases hy : f y with
    | none => simp [hy] at h
    | some b =>
      cases hxs : xs.mapM f with
      | none => simp [hy, hxs] at h
      | some bs =>
        rcases List.mem_cons.mp hx with rfl | hmem
        . simp [hy]
        . exact isSome_of_mapM_eq_some hxs x hmem

theorem foldl_invariant {α β : Type} (I : β → Prop) {l : List α} {g : β → α → β}
    (hstep : ∀ b, ∀ a ∈ l, I b → I (g b a)) {init : β} (hinit : I init) : I (l.foldl g init) := by
  induction l generalizing init with
  | nil => exact hinit
  | cons a l ih =>
    exact ih (fun b a' ha' => hstep b a' (List.mem_cons_of_mem a ha'))
      (hstep init a List.mem_cons_self hinit)

theorem Forall₂.getElem?_some {α β : Type} {R : α → β → Prop} :
    ∀ {xs : List α} {ys : List β}, Forall₂ R xs ys → ∀ {i : Nat} {x : α}, xs[i]? = some x →
      ∃ y, ys[i]? = some y ∧ R x y
  | _, _, .nil, _, _, h => by cases h
  | _, _, .cons hxy _, 0, _, h => by
    cases h
    exact ⟨_, rfl, hxy⟩
  | _, _, .cons _ hrest, i + 1, _, h => hrest.getElem?_some h

end List

namespace OlapCalc

theorem bind_eq_ok {ε α β : Type} {x : Except ε α} {f : α → Except ε β} {b : β} :
    x >>= f = .ok b ↔ ∃ a, x = .ok a ∧ f a = .ok b := by
  cases x <;> simp [bind, Except.bind]

/-- The error of a missing conversion. -/
def OlapError.MissingConversion : OlapError → Prop
  | .noConversion .. => True
  | _ => False

theorem CallSyntax.eq_of_beq {a b : CallSyntax} (h : (a == b) = true) : a = b := by
  revert h
  cases a <;> cases b <;> decide

namespace FunctionTable

open Except (Ensures)

theorem resolve_chooses {t : FunctionTable} {name : String} {style : CallSyntax}
    {args : List Shape} {spec : FunctionSpec} (h : t.resolve name style args = .ok spec) :
    spec ∈ t.specs ∧ key spec.name = key name ∧ spec.style = style ∧
      spec.minArgs ≤ args.length ∧ args.length ≤ spec.maxArgs ∧ ∃ k, spec.cost args = some k := by
  unfold resolve at h
  generalize hc : t.specs.filter _ = candidates at h
  dsimp only at h
  split at h
  . next spec' k hbest =>
    obtain rfl : spec' = spec := Except.ok.inj h
    -- the best candidate so far is always a candidate whose arguments convert
    obtain ⟨hmem, hcost⟩ := List.foldl_invariant
      (fun best => ∀ spec k, best = some (spec, k) → spec ∈ candidates ∧ spec.cost args = some k)
      (fun best c hcand hbest spec k hsome => by
        split at hsome
        . exact hbest spec k hsome
        . next hcost => cases hsome; exact ⟨hcand, hcost⟩
        . next hcost =>
          split at hsome
          . cases hsome; exact ⟨hcand, hcost⟩
          . cases hsome; exact hbest _ _ rfl)
      (fun _ _ h => by cases h) spec' k hbest
    rw [← hc] at hmem
    obtain ⟨hspec, hpred⟩ := List.mem_filter.mp hmem
    simp only [Bool.and_eq_true, decide_eq_true_eq, beq_iff_eq] at hpred
    exact ⟨hspec, hpred.1.1.1, CallSyntax.eq_of_beq hpred.1.1.2, hpred.1.2, hpred.2, k, hcost⟩
  . cases h

theorem resolve_ensures (t : FunctionTable) (name : String) (style : CallSyntax)
    (args : List Shape) :
    Ensures (fun spec => spec ∈ t.specs ∧ args.length ≤ spec.maxArgs ∧ ∃ k, spec.cost args = some k)
      (¬ ·.MissingConversion) (t.resolve name style args) := by
  cases h : t.resolve name style args with
  | ok spec =>
    obtain ⟨hmem, -, -, -, hlen, hcost⟩ := resolve_chooses h
    exact ⟨hmem, hlen, hcost⟩
  | error e =>
    unfold resolve at h
    dsimp only at h
    split at h
    . cases h
    . cases h
      exact id

end FunctionTable

namespace Builtin

/-- The result descriptor of the node each implementation builds. -/
def returns : Builtin → Returns
  | .arithmetic | .negate => .fixed .float
  | .compare | .logical | .not | .isEmpty => .fixed .boolean
  | .iif => .unified 1
  | .coalesceEmpty => .unified 0
  | .format | .name => .fixed .string
  | .currentMember | .defaultMember | .parent => .fixed .member
  | .tuple => .tuple
  | .members | .children | .slicer => .fixed (.set 1)
  | .braces => .braces
  | .crossJoin | .nonEmptyCrossJoin => .crossJoin
  | .filter | .topCount | .bottomCount | .head | .order => .setOf 0
  | .generate => .setOf 1
  | .count => .fixed .integer
  | .aggregate => .fixed .scalar
  | .sum | .avg | .min | .max | .median | .percentile | .var | .varP | .stdev | .stdevP
  | .linRegSlope | .linRegIntercept | .linRegR2 | .linRegVariance | .linRegPoint
  | .covariance | .covarianceN | .correlation => .fixed .float

/-- The operands an implementation takes in a fixed category, whatever the signature declares:
its set operands, and the branches whose shapes make up a conditional's. -/
def operands : Builtin → List (Nat × Category)
  | .iif => [(1, .value), (2, .value)]
  | .generate => [(0, .set), (1, .set)]
  | .linRegPoint => [(1, .set)]
  | .filter | .topCount | .bottomCount | .head | .order | .count | .sum | .avg | .min | .max
  | .median | .percentile | .var | .varP | .stdev | .stdevP | .linRegSlope | .linRegIntercept
  | .linRegR2 | .linRegVariance | .covariance | .covarianceN | .correlation | .aggregate =>
    [(0, .set)]
  | _ => []

/-- The category of every operand, for the implementations that take all of them alike. -/
def everyOperand? : Builtin → Option Category
  | .coalesceEmpty => some .value
  | .tuple => some .member
  | .braces | .crossJoin | .nonEmptyCrossJoin => some .set
  | _ => none

/-- The most operands an implementation reads: a conditional's shape is that of its two
branches. -/
def maxOperands? : Builtin → Option Nat
  | .iif => some 3
  | _ => none

end Builtin

theorem Shape.unify_isScalar {a : Shape} (ha : a.isScalar) (b : Shape) : (a.unify b).isScalar := by
  unfold Shape.unify
  split_ifs
  . exact ha
  . rfl
  . rfl

theorem Returns.unified_isScalar (start : Nat) (shapes : List Shape) :
    ((Returns.unified start).shape shapes).isScalar := by
  have hfold : ∀ (rest : List Shape) (acc : Shape), acc.isScalar →
      (rest.foldl Shape.unify acc).isScalar := by
    intro rest
    induction rest with
    | nil => exact fun _ h => h
    | cons b rest ih => exact fun acc h => ih _ (Shape.unify_isScalar h b)
  simp only [Returns.shape]
  generalize hl : (shapes.drop start).map (fun s => if s.isScalar then s else .scalar) = l
  cases l with
  | nil => rfl
  | cons s rest =>
    apply hfold
    have hs : s ∈ (shapes.drop start).map (fun s => if s.isScalar then s else .scalar) := by
      rw [hl]
      exact List.mem_cons_self
    obtain ⟨s', -, rfl⟩ := List.mem_map.mp hs
    split_ifs with h
    . exact h
    . rfl

theorem Returns.unified_ne_hierarchy (start : Nat) (shapes : List Shape) :
    (Returns.unified start).shape shapes ≠ .hierarchy := by
  intro h
  have hscalar := Returns.unified_isScalar start shapes
  rw [h] at hscalar
  cases hscalar

theorem Builtin.returns_shape_ne_hierarchy (b : Builtin) (shapes : List Shape) :
    b.returns.shape shapes ≠ .hierarchy := by
  cases b
  case iif => exact Returns.unified_ne_hierarchy 1 shapes
  case coalesceEmpty => exact Returns.unified_ne_hierarchy 0 shapes
  all_goals simp [Builtin.returns, Returns.shape]

/-- A signature fits its implementation: it declares the result the implementation builds, and
the categories the implementation takes its operands in. -/
def FunctionSpec.Coherent (spec : FunctionSpec) : Prop :=
  spec.returns = spec.builtin.returns ∧ (∀ p ∈ spec.builtin.operands, spec.argType p.1 = p.2) ∧
    (∀ c ∈ spec.builtin.everyOperand?, spec.argTypes ≠ [] ∧ ∀ c' ∈ spec.argTypes, c' = c) ∧
    ∀ k ∈ spec.builtin.maxOperands?, spec.maxArgs ≤ k

instance (spec : FunctionSpec) : Decidable spec.Coherent :=
  inferInstanceAs (Decidable (spec.returns = spec.builtin.returns ∧
    (∀ p ∈ spec.builtin.operands, spec.argType p.1 = p.2) ∧
    (∀ c ∈ spec.builtin.everyOperand?, spec.argTypes ≠ [] ∧ ∀ c' ∈ spec.argTypes, c' = c) ∧
    ∀ k ∈ spec.builtin.maxOperands?, spec.maxArgs ≤ k))

/-- Every signature of the table fits its implementation. -/
def FunctionTable.Coherent (t : FunctionTable) : Prop :=
  ∀ spec ∈ t.specs, spec.Coherent

instance (t : FunctionTable) : Decidable t.Coherent :=
  inferInstanceAs (Decidable (∀ spec ∈ t.specs, spec.Coherent))

theorem FunctionTable.builtins_coherent : FunctionTable.builtins.Coherent := by
  decide

theorem Node.argArity_eq_node (a : SetArg) : Node.argArity a = a.node.shape.arity := by
  cases a
  rfl

theorem Returns.setOf_shape {a : SetArg} {shapes : List Shape} {i : Nat}
    (h : a.node.shape = .set ((shapes[i]?.map Shape.arity).getD 1)) :
    Shape.set (Node.argArity a) = (Returns.setOf i).shape shapes := by
  rw [Node.argArity_eq_node, h]
  rfl

theorem conversionCost_category (s : Shape) : conversionCost s s.category = some 0 := by
  simp [conversionCost]

theorem FunctionSpec.cost_isSome {spec : FunctionSpec} {shapes : List Shape} {k : Nat}
    (h : spec.cost shapes = some k) {i : Nat} {s : Shape} (hs : shapes[i]? = some s) :
    (conversionCost s (spec.argType i)).isSome := by
  unfold FunctionSpec.cost at h
  obtain ⟨costs, hcosts, -⟩ := Option.map_eq_some_iff.mp h
  exact List.isSome_of_mapM_eq_some hcosts (s, i) (List.mk_mem_zipIdx_iff_getElem?.mpr hs)

theorem FunctionSpec.argType_of_forall {spec : FunctionSpec} {c : Category}
    (hne : spec.argTypes ≠ []) (hall : ∀ c' ∈ spec.argTypes, c' = c) (i : Nat) :
    spec.argType i = c := by
  unfold FunctionSpec.argType
  split
  . next c' hc => exact hall c' (List.mem_of_getElem? hc)
  . obtain ⟨last, hlast⟩ := Option.isSome_iff_exists.mp (List.getLast?_isSome.mpr hne)
    rw [hlast]
    exact hall last (List.mem_of_getLast? hlast)

theorem Shape.arity_of_cost_member {s : Shape} (h : (conversionCost s .member).isSome) :
    s.arity = 1 := by
  cases s <;> simp +decide [conversionCost, Shape.category] at h ⊢

theorem Shape.foldr_arity_of_members {l : List Shape} (h : ∀ s ∈ l, s.arity = 1) :
    (l.map Shape.arity).foldr (· + ·) 0 = l.length := by
  induction l with
  | nil => rfl
  | cons s l ih =>
    rw [List.map_cons, List.foldr_cons, h s List.mem_cons_self,
      ih fun s' hs' => h s' (List.mem_cons_of_mem s hs'), List.length_cons, Nat.add_comm]

theorem Node.totalArity_eq (sets : List SetArg) :
    Node.totalArity sets = (sets.map Node.argArity).foldr (· + ·) 0 := by
  induction sets with
  | nil => rfl
  | cons a sets ih => rw [Node.totalArity, ih, List.map_cons, List.foldr_cons]

theorem Shape.scalarize_convertedTo_value (s : Shape) :
    (if (s.convertedTo .value).isScalar then s.convertedTo .value else .scalar) =
      (if s.isScalar then s else .scalar) := by
  cases h : s.isScalar
  . simp only [Shape.convertedTo, h, Bool.false_eq_true, if_false]
    rfl
  . simp only [Shape.convertedTo, h, if_true]

theorem Returns.unified_map_convertedTo_value (start : Nat) (l : List Shape) :
    (Returns.unified start).shape (l.map (·.convertedTo .value)) =
      (Returns.unified start).shape l := by
  simp only [Returns.shape, ← List.map_drop, List.map_map, Function.comp_def,
    Shape.scalarize_convertedTo_value]

theorem Returns.unified_succ_cons (start : Nat) (a b : Shape) (l : List Shape) :
    (Returns.unified (start + 1)).shape (a :: l) = (Returns.unified (start + 1)).shape (b :: l) := by
  simp [Returns.shape]

theorem FunctionSpec.Coherent.returns_shape_ne_hierarchy {spec : FunctionSpec}
    (h : spec.Coherent) (shapes : List Shape) : spec.returns.shape shapes ≠ .hierarchy := by
  rw [h.1]
  exact spec.builtin.returns_shape_ne_hierarchy shapes

namespace Compiler

variable {t : FunctionTable}

theorem shapeOf_call (fuel : Nat) (name : String) (style : CallSyntax) (args : List Exp) :
    shapeOf t (fuel + 1) (.call name style args) = (do
      let shapes ← args.mapM (shapeOf t fuel)
      let spec ← t.resolve name style shapes
      pure (spec.returns.shape shapes)) := rfl

theorem shapeOf_succ : ∀ {fuel : Nat} {e : Exp} {s : Shape},
    shapeOf t fuel e = .ok s → shapeOf t (fuel + 1) e = .ok s
  | 0, _, _, h => by cases h
  | fuel + 1, e, s, h => by
    cases e with
    | call name style args =>
      rw [shapeOf_call] at h ⊢
      cases hargs : args.mapM (shapeOf t fuel) with
      | error err => simp [hargs] at h
      | ok shapes =>
        -- the arguments' shapes one level up are those of this level
        have hup : args.mapM (shapeOf t (fuel + 1)) = .ok shapes :=
          List.mapM_eq_ok_of_forall₂
            ((List.forall₂_of_mapM_eq_ok hargs).imp fun _ _ ha => shapeOf_succ ha)
        rw [hargs] at h
        rw [hup]
        exact h
    | _ => simpa [shapeOf] using h

theorem shapeOf_mono {fuel fuel' : Nat} {e : Exp} {s : Shape} (h : shapeOf t fuel e = .ok s)
    (hle : fuel ≤ fuel') : shapeOf t fuel' e = .ok s := by
  induction hle with
  | refl => exact h
  | step _ ih => exact shapeOf_succ ih

/-- `e` has shape `s`: inference finds it with enough fuel. -/
def HasShape (t : FunctionTable) (e : Exp) (s : Shape) : Prop :=
  ∃ fuel, shapeOf t fuel e = .ok s

theorem HasShape.unique {e : Exp} {s s' : Shape} (h : HasShape t e s) (h' : HasShape t e s') :
    s = s' := by
  obtain ⟨f, hf⟩ := h
  obtain ⟨f', hf'⟩ := h'
  have h₁ := shapeOf_mono hf (Nat.le_max_left f f')
  have h₂ := shapeOf_mono hf' (Nat.le_max_right f f')
  rw [h₁] at h₂
  cases h₂
  rfl

open Except (Ensures)

/-- Asking a shape for its own category keeps it. -/
@[simp] theorem Shape.convertedTo_category (s : Shape) : s.convertedTo s.category = s := by
  cases s <;> rfl

theorem convert_shape {e : Exp} {n n' : Node} {c : Category} (h : convert e n c = .ok n') :
    n'.shape = n.shape.convertedTo c ∧ (conversionCost n.shape c).isSome := by
  unfold convert at h
  generalize hs : n.shape = s at h
  dsimp only at h
  split at h
  . next hcat =>
    -- a node already of the target's category is kept
    cases h
    obtain rfl := beq_iff_eq.mp hcat
    exact ⟨by rw [hs, Shape.convertedTo_category], by rw [conversionCost_category]; rfl⟩
  split at h
  . next hvalue =>
    -- and so is a scalar asked for as a value
    cases h
    simp only [Bool.and_eq_true, beq_iff_eq] at hvalue
    obtain ⟨rfl, hscalar⟩ := hvalue
    exact ⟨by simp [hs, Shape.convertedTo, hscalar], by simp [conversionCost, hscalar]⟩
  split at h
  case h_30 =>
    -- a hierarchy is read as its current member, when it is written as one
    split at h
    . cases h
      exact ⟨rfl, rfl⟩
    . cases h
  case h_31 => cases h
  -- every other entry of the table wraps the node in its conversion
  all_goals
    cases h
    exact ⟨by simp [Node.shape, hs, Shape.convertedTo, Shape.arity, Shape.arity?, Shape.isScalar,
      Shape.category, Category.isScalar], rfl⟩

theorem convert_ok_of_cost {e : Exp} {n : Node} {c : Category}
    (hcost : (conversionCost n.shape c).isSome)
    (hh : n.shape = .hierarchy → c = .member → ∃ h, e = .hierarchy h) :
    ∃ n', convert e n c = .ok n' := by
  unfold convert
  generalize hs : n.shape = s at hcost hh
  cases s <;> cases c <;> simp +decide [conversionCost, Shape.isScalar, Shape.category,
    Shape.isMemberLike, Category.isScalar, pure, Except.pure] at hcost hh ⊢
  case hierarchy.member =>
    obtain ⟨h, rfl⟩ := hh
    exact ⟨_, rfl⟩

theorem convert_ensures {e : Exp} {n : Node} {c : Category}
    (hcost : (conversionCost n.shape c).isSome)
    (hh : n.shape = .hierarchy → c = .member → ∃ h, e = .hierarchy h) :
    Ensures (·.shape = n.shape.convertedTo c) (¬ ·.MissingConversion) (convert e n c) := by
  obtain ⟨n', hn'⟩ := convert_ok_of_cost hcost hh
  rw [hn']
  exact (convert_shape hn').1

theorem shapeOf_eq_hierarchy (ht : t.Coherent) :
    ∀ {fuel : Nat} {e : Exp}, shapeOf t fuel e = .ok .hierarchy → ∃ h, e = .hierarchy h
  | 0, _, hs => by cases hs
  | fuel + 1, e, hs => by
    cases e with
    | literal l => cases l <;> cases hs
    | hierarchy h => exact ⟨h, rfl⟩
    | call name style args =>
      rw [shapeOf_call] at hs
      obtain ⟨shapes, -, hs⟩ := bind_eq_ok.mp hs
      obtain ⟨spec, hres, hs⟩ := bind_eq_ok.mp hs
      have hmem := ((FunctionTable.resolve_ensures t name style shapes).of_ok hres).1
      exact absurd (Except.ok.inj hs) ((ht spec hmem).returns_shape_ne_hierarchy shapes)
    | _ => cases hs

theorem shapeOf_clean :
    ∀ fuel e, Ensures (fun _ => True) (¬ ·.MissingConversion) (shapeOf t fuel e)
  | 0, _ => Ensures.throw id
  | fuel + 1, e => by
    cases e with
    | call name style args =>
      rw [shapeOf_call]
      refine Ensures.bind (Ensures.mapM fun a _ => shapeOf_clean fuel a) fun shapes _ => ?_
      exact Ensures.bind (FunctionTable.resolve_ensures t name style shapes |>.mono fun _ _ => trivial)
        fun _ _ => Ensures.pure trivial
    | _ => exact Ensures.pure trivial

theorem natural_call (fuel : Nat) (name : String) (style : CallSyntax) (args : List Exp) :
    natural t (fuel + 1) (.call name style args) = (do
      let shapes ← args.mapM (shapeOf t fuel)
      let spec ← t.resolve name style shapes
      build t fuel spec (.call name style args) name args) := by
  simp only [natural]

/-- The arguments of a call with their inferred shapes, each converting to the category the
overload declares. -/
structure Typed (t : FunctionTable) (spec : FunctionSpec) (args : List Exp) (shapes : List Shape) :
    Prop where
  hasShapes : List.Forall₂ (HasShape t) args shapes
  length_le : shapes.length ≤ spec.maxArgs
  costs : ∀ i s, shapes[i]? = some s → (conversionCost s (spec.argType i)).isSome

theorem Typed.cost_of_argType {spec : FunctionSpec} {args : List Exp} {shapes : List Shape}
    (h : Typed t spec args shapes) {i : Nat} {c : Category} (hi : spec.argType i = c) :
    ∀ s, shapes[i]? = some s → (conversionCost s c).isSome := fun s hs => hi ▸ h.costs i s hs

theorem Typed.cost_of_forall {spec : FunctionSpec} {args : List Exp} {shapes : List Shape}
    (h : Typed t spec args shapes) {c : Category} (hc : ∀ i, spec.argType i = c) :
    ∀ s ∈ shapes, (conversionCost s c).isSome := by
  intro s hs
  obtain ⟨i, hi⟩ := List.mem_iff_getElem?.mp hs
  exact h.cost_of_argType (hc i) s hi

/-- At nesting bound `fuel`, every function of the compiler builds nodes of the shapes inference
gives, and fails for want of a conversion only where inference finds none. -/
structure ShapesAt (t : FunctionTable) (fuel : Nat) : Prop where
  natural : ∀ e, Ensures (fun n => shapeOf t fuel e = .ok n.shape) (¬ ·.MissingConversion)
    (natural t fuel e)
  compile : ∀ e c s, HasShape t e s → (conversionCost s c).isSome →
    Ensures (·.shape = s.convertedTo c) (¬ ·.MissingConversion) (compile t fuel e c)
  compileSet : ∀ e accepts s, HasShape t e s → (conversionCost s .set).isSome →
    Ensures (·.node.shape = s.convertedTo .set) (¬ ·.MissingConversion)
      (compileSet t fuel e accepts)
  argument : ∀ spec args shapes i, Typed t spec args shapes →
    Ensures (fun n => ∃ s, shapes[i]? = some s ∧ n.shape = s.convertedTo (spec.argType i))
      (¬ ·.MissingConversion) (argument t fuel spec args i)
  optArgument : ∀ spec args shapes i, Typed t spec args shapes →
    Ensures (fun _ => True) (¬ ·.MissingConversion) (optArgument t fuel spec args i)
  setArgument : ∀ args shapes i accepts, List.Forall₂ (HasShape t) args shapes →
    (∀ s, shapes[i]? = some s → (conversionCost s .set).isSome) →
    Ensures (fun a => a.node.shape = .set ((shapes[i]?.map Shape.arity).getD 1))
      (¬ ·.MissingConversion) (setArgument t fuel args i accepts)
  enumItems : ∀ whole items shapes arity, List.Forall₂ (HasShape t) items shapes →
    (∀ s ∈ shapes, (conversionCost s .set).isSome) →
    Ensures (fun r => r.2 = arity.or (shapes.head?.map Shape.arity)) (¬ ·.MissingConversion)
      (enumItems t fuel whole items arity)
  allArguments : ∀ spec args shapes i c, Typed t spec args shapes → (∀ j, spec.argType j = c) →
    Ensures (fun ns => ns.map Node.shape = (shapes.drop i).map (·.convertedTo c))
      (¬ ·.MissingConversion) (allArguments t fuel spec args i)
  allSets : ∀ args shapes, List.Forall₂ (HasShape t) args shapes →
    (∀ s ∈ shapes, (conversionCost s .set).isSome) →
    Ensures (fun sets => sets.map Node.argArity = shapes.map Shape.arity)
      (¬ ·.MissingConversion) (allSets t fuel args)
  build : ∀ spec e name args shapes, spec.Coherent → Typed t spec args shapes →
    Ensures (·.shape = spec.returns.shape shapes) (¬ ·.MissingConversion)
      (build t fuel spec e name args)

namespace ShapesAt

variable {fuel : Nat}

theorem natural_succ (ht : t.Coherent) (ih : ShapesAt t fuel) (e : Exp) :
    Ensures (fun n => shapeOf t (fuel + 1) e = .ok n.shape) (¬ ·.MissingConversion)
      (Compiler.natural t (fuel + 1) e) := by
  cases e with
  | call name style args =>
    rw [natural_call, shapeOf_call]
    cases hargs : args.mapM (shapeOf t fuel) with
    | error err => exact (Ensures.mapM fun a _ => shapeOf_clean fuel a).of_error hargs
    | ok shapes =>
      have hres := FunctionTable.resolve_ensures t name style shapes
      simp only [Except.ok_bind]
      cases hspec : t.resolve name style shapes with
      | error err => exact hres.of_error hspec
      | ok spec =>
        simp only [Except.ok_bind]
        obtain ⟨hmem, hlen, k, hcost⟩ := hres.of_ok hspec
        -- the arguments' shapes are those inference found, and each converts as declared
        have htyped : Typed t spec args shapes :=
          ⟨(List.forall₂_of_mapM_eq_ok hargs).imp fun _ _ h => ⟨fuel, h⟩, hlen,
            fun _ _ hs => FunctionSpec.cost_isSome hcost hs⟩
        exact (ih.build spec _ name args shapes (ht spec hmem) htyped).mono fun n hn => by
          rw [hn]
          rfl
  | _ =>
    simp only [Compiler.natural]
    exact Ensures.pure rfl

theorem compile_succ (ht : t.Coherent) (ih : ShapesAt t fuel) (e : Exp) (c : Category) (s : Shape)
    (hs : HasShape t e s) (hcost : (conversionCost s c).isSome) :
    Ensures (·.shape = s.convertedTo c) (¬ ·.MissingConversion)
      (Compiler.compile t (fuel + 1) e c) := by
  simp only [Compiler.compile]
  refine Ensures.bind (ih.natural e) fun n hn => ?_
  have hshape : n.shape = s := HasShape.unique ⟨fuel, hn⟩ hs
  -- a node of the shape of a hierarchy comes from a hierarchy written as such
  have hh : n.shape = .hierarchy → c = .member → ∃ h, e = .hierarchy h :=
    fun hhier _ => shapeOf_eq_hierarchy ht (hhier ▸ hn)
  exact (convert_ensures (hshape ▸ hcost) hh).mono fun n' hn' => by rw [hn', hshape]

theorem compileSet_succ (ih : ShapesAt t fuel) (e : Exp) (accepts : List ResultStyle)
    (s : Shape) (hs : HasShape t e s) (hcost : (conversionCost s .set).isSome) :
    Ensures (·.node.shape = s.convertedTo .set) (¬ ·.MissingConversion)
      (Compiler.compileSet t (fuel + 1) e accepts) := by
  simp only [Compiler.compileSet]
  refine Ensures.bind (ih.compile e .set s hs hcost) fun n hn => ?_
  split
  . exact Ensures.pure hn
  . exact Ensures.throw id

theorem argument_succ (ih : ShapesAt t fuel) (spec : FunctionSpec) (args : List Exp)
    (shapes : List Shape) (i : Nat) (htyped : Typed t spec args shapes) :
    Ensures (fun n => ∃ s, shapes[i]? = some s ∧ n.shape = s.convertedTo (spec.argType i))
      (¬ ·.MissingConversion) (Compiler.argument t (fuel + 1) spec args i) := by
  simp only [Compiler.argument]
  split
  . next a ha =>
    obtain ⟨s, hs, has⟩ := htyped.hasShapes.getElem?_some ha
    exact (ih.compile a _ s has (htyped.costs i s hs)).mono fun n hn => ⟨s, hs, hn⟩
  . exact Ensures.throw id

theorem optArgument_succ (ih : ShapesAt t fuel) (spec : FunctionSpec) (args : List Exp)
    (shapes : List Shape) (i : Nat) (htyped : Typed t spec args shapes) :
    Ensures (fun _ => True) (¬ ·.MissingConversion)
      (Compiler.optArgument t (fuel + 1) spec args i) := by
  simp only [Compiler.optArgument]
  split
  . next a ha =>
    obtain ⟨s, hs, has⟩ := htyped.hasShapes.getElem?_some ha
    exact (ih.compile a _ s has (htyped.costs i s hs)).map fun _ _ => trivial
  . exact Ensures.pure trivial

theorem setArgument_succ (ih : ShapesAt t fuel) (args : List Exp) (shapes : List Shape) (i : Nat)
    (accepts : List ResultStyle) (hhas : List.Forall₂ (HasShape t) args shapes)
    (hcost : ∀ s, shapes[i]? = some s → (conversionCost s .set).isSome) :
    Ensures (fun a => a.node.shape = .set ((shapes[i]?.map Shape.arity).getD 1))
      (¬ ·.MissingConversion) (Compiler.setArgument t (fuel + 1) args i accepts) := by
  simp only [Compiler.setArgument]
  split
  . next a ha =>
    obtain ⟨s, hs, has⟩ := hhas.getElem?_some ha
    exact (ih.compileSet a accepts s has (hcost s hs)).mono fun sa hsa => by
      rw [hsa, hs]
      rfl
  . exact Ensures.throw id

theorem allSets_succ (ih : ShapesAt t fuel) (args : List Exp) (shapes : List Shape)
    (hhas : List.Forall₂ (HasShape t) args shapes)
    (hcost : ∀ s ∈ shapes, (conversionCost s .set).isSome) :
    Ensures (fun sets => sets.map Node.argArity = shapes.map Shape.arity)
      (¬ ·.MissingConversion) (Compiler.allSets t (fuel + 1) args) := by
  cases hhas with
  | nil =>
    simp only [Compiler.allSets]
    exact Ensures.pure rfl
  | cons has hrest =>
    simp only [Compiler.allSets]
    refine Ensures.bind (ih.compileSet _ _ _ has (hcost _ List.mem_cons_self)) fun sa hsa => ?_
    refine Ensures.bind (ih.allSets _ _ hrest fun s hs => hcost s (List.mem_cons_of_mem _ hs))
      fun sets hsets => ?_
    refine Ensures.pure ?_
    rw [List.map_cons, List.map_cons, hsets, Node.argArity_eq_node, hsa]
    rfl

theorem allArguments_succ (ih : ShapesAt t fuel) (spec : FunctionSpec) (args : List Exp)
    (shapes : List Shape) (i : Nat) (c : Category) (htyped : Typed t spec args shapes)
    (hc : ∀ j, spec.argType j = c) :
    Ensures (fun ns => ns.map Node.shape = (shapes.drop i).map (·.convertedTo c))
      (¬ ·.MissingConversion) (Compiler.allArguments t (fuel + 1) spec args i) := by
  simp only [Compiler.allArguments]
  split
  . refine Ensures.bind (ih.argument spec args shapes i htyped) fun n hn => ?_
    obtain ⟨s, hs, hn⟩ := hn
    refine Ensures.bind (ih.allArguments spec args shapes (i + 1) c htyped hc) fun ns hns => ?_
    refine Ensures.pure ?_
    obtain ⟨hlt, rfl⟩ := List.getElem?_eq_some_iff.mp hs
    rw [List.map_cons, hns, hn, hc i, List.drop_eq_getElem_cons hlt, List.map_cons]
  . next hi =>
    have hlen : shapes.length ≤ i := by
      rw [← htyped.hasShapes.length_eq]
      omega
    exact Ensures.pure (by simp [List.drop_eq_nil_of_le hlen])

theorem enumItems_succ (ih : ShapesAt t fuel) (whole : Exp) (items : List Exp)
    (shapes : List Shape) (arity : Option Nat) (hhas : List.Forall₂ (HasShape t) items shapes)
    (hcost : ∀ s ∈ shapes, (conversionCost s .set).isSome) :
    Ensures (fun r => r.2 = arity.or (shapes.head?.map Shape.arity)) (¬ ·.MissingConversion)
      (Compiler.enumItems t (fuel + 1) whole items arity) := by
  cases hhas with
  | nil =>
    simp only [Compiler.enumItems]
    exact Ensures.pure (by simp)
  | cons has hrest =>
    rename_i item s rest shapes'
    simp only [Compiler.enumItems]
    cases hsh : shapeOf t fuel item with
    | error err =>
      simp only [Except.error_bind]
      exact (shapeOf_clean fuel item).of_error hsh
    | ok sh =>
      obtain rfl : sh = s := HasShape.unique ⟨fuel, hsh⟩ has
      simp only [Except.ok_bind]
      have hsingle : Ensures (fun _ => True) (¬ ·.MissingConversion)
          (SetItem.single <$> Compiler.compile t fuel item sh.category) :=
        (ih.compile item _ sh has (by rw [conversionCost_category]; rfl)).map fun _ _ => trivial
      have hsplice : Ensures (fun _ => True) (¬ ·.MissingConversion)
          (SetItem.splice <$> Compiler.compileSet t fuel item ResultStyle.iterate) :=
        (ih.compileSet item _ sh has (hcost sh List.mem_cons_self)).map fun _ _ => trivial
      -- whichever way the item compiles, the rest of the items fix the arity
      have htail : ∀ m : Except OlapError SetItem, Ensures (fun _ => True) (¬ ·.MissingConversion) m →
          Ensures (fun r => r.2 = arity.or ((sh :: shapes').head?.map Shape.arity))
            (¬ ·.MissingConversion) (do
              let compiled ← m
              let r ← Compiler.enumItems t fuel whole rest (some (arity.getD sh.arity))
              pure (compiled :: r.1, r.2)) := by
        intro m hm
        refine Ensures.bind hm fun _ _ => ?_
        refine Ensures.bind (ih.enumItems whole rest shapes' _ hrest
          fun s hs => hcost s (List.mem_cons_of_mem _ hs)) fun r hr => ?_
        refine Ensures.pure ?_
        rw [hr]
        cases arity <;> rfl
      split
      . split
        . exact Ensures.throw_bind id
        . split
          . exact htail _ hsingle
          . exact htail _ hsingle
          . exact htail _ hsplice
      . split
        . exact htail _ hsingle
        . exact htail _ hsingle
        . exact htail _ hsplice

theorem build_succ (ih : ShapesAt t fuel) (spec : FunctionSpec) (e : Exp) (name : String)
    (args : List Exp) (shapes : List Shape) (hcoh : spec.Coherent)
    (htyped : Typed t spec args shapes) :
    Ensures (·.shape = spec.returns.shape shapes) (¬ ·.MissingConversion)
      (Compiler.build t (fuel + 1) spec e name args) := by
  obtain ⟨sname, style, minArgs, maxArgs, returns, argTypes, builtin⟩ := spec
  obtain ⟨hret, hops, hevery, hmax⟩ := hcoh
  dsimp only at hret hops hevery hmax
  subst hret
  unfold Compiler.build
  -- one case per implementation, with what its signature promises about its operands
  cases builtin
  all_goals simp only [Builtin.returns, Builtin.operands, Builtin.everyOperand?, List.mem_cons,
    List.not_mem_nil, or_false, forall_eq_or_imp, forall_eq, Option.mem_def, reduceCtorEq,
    Builtin.maxOperands?, false_imp_iff, Option.some.injEq, forall_const, forall_eq'] at hops hevery hmax ⊢
  all_goals try obtain ⟨hops, hops'⟩ := hops
  case arithmetic =>
    split
    . split
      . next hfold =>
        refine Ensures.pure ?_
        -- an operation on two numeric literals is folded to a number constant
        split at hfold
        . split at hfold
          . split at hfold
            . cases hfold
              rfl
            . cases hfold
          . cases hfold
        . cases hfold
      . exact Ensures.bind (ih.argument _ _ _ 0 htyped) fun _ _ =>
          Ensures.bind (ih.argument _ _ _ 1 htyped) fun _ _ => Ensures.pure rfl
    . exact Ensures.throw id
  case compare =>
    split
    . split
      . next hfold =>
        refine Ensures.pure ?_
        -- a comparison of two literals is folded to a boolean constant
        split at hfold
        . split at hfold
          . cases hfold
            rfl
          . cases hfold
        . cases hfold
      . exact Ensures.bind (ih.argument _ _ _ 0 htyped) fun _ _ =>
          Ensures.bind (ih.argument _ _ _ 1 htyped) fun _ _ => Ensures.pure rfl
    . exact Ensures.throw id
  case iif =>
    refine Ensures.bind (ih.argument _ _ _ 0 htyped) fun c hc => ?_
    refine Ensures.bind (ih.argument _ _ _ 1 htyped) fun a ha => ?_
    refine Ensures.bind (ih.argument _ _ _ 2 htyped) fun b hb => ?_
    obtain ⟨s₀, hs₀, -⟩ := hc
    obtain ⟨s₁, hs₁, ha⟩ := ha
    obtain ⟨s₂, hs₂, hb⟩ := hb
    refine Ensures.pure ?_
    -- a conditional has exactly its condition and its two branches
    have hlen : shapes.length ≤ 3 := Nat.le_trans htyped.length_le hmax
    have hshapes : shapes = [s₀, s₁, s₂] := by
      apply List.ext_getElem?
      intro i
      rcases i with _ | _ | _ | i
      . exact hs₀
      . exact hs₁
      . exact hs₂
      . simp only [List.getElem?_eq_none (show shapes.length ≤ i + 3 by omega),
          List.getElem?_cons_succ, List.getElem?_nil]
    rw [hshapes]
    simp only [Node.shape, ha, hb, hops, hops']
    rw [Returns.unified_succ_cons 0 _ (s₀.convertedTo .value)]
    exact Returns.unified_map_convertedTo_value 1 [s₀, s₁, s₂]
  case coalesceEmpty =>
    refine Ensures.bind (ih.allArguments _ _ _ 0 .value htyped
      (FunctionSpec.argType_of_forall hevery.1 hevery.2)) fun ns hns => ?_
    refine Ensures.pure ?_
    simp only [Node.shape, hns, List.drop_zero]
    exact Returns.unified_map_convertedTo_value 0 shapes
  case tuple =>
    refine Ensures.bind (ih.allArguments _ _ _ 0 .member htyped
      (FunctionSpec.argType_of_forall hevery.1 hevery.2)) fun ns hns => ?_
    refine Ensures.pure ?_
    have hlen : ns.length = shapes.length := by simpa using congrArg List.length hns
    simp only [Node.shape, Returns.shape, hlen]
    -- every operand converts to a member, so each stands for one member
    rw [Shape.foldr_arity_of_members]
    exact fun s hs => Shape.arity_of_cost_member
      (htyped.cost_of_forall (FunctionSpec.argType_of_forall hevery.1 hevery.2) s hs)
  case braces =>
    refine Ensures.bind (ih.enumItems _ _ _ none htyped.hasShapes
      (htyped.cost_of_forall (FunctionSpec.argType_of_forall hevery.1 hevery.2))) fun r hr => ?_
    obtain ⟨items, arity⟩ := r
    refine Ensures.pure ?_
    simp only [Option.none_or] at hr
    simp only [Node.shape, Returns.shape, hr]
  case crossJoin | nonEmptyCrossJoin =>
    refine Ensures.bind (ih.allSets _ _ htyped.hasShapes
      (htyped.cost_of_forall (FunctionSpec.argType_of_forall hevery.1 hevery.2)))
      fun sets hsets => ?_
    refine Ensures.pure ?_
    simp only [Node.shape, Returns.shape, Node.totalArity_eq, hsets]
  -- the rest build a node of a fixed shape, or a set over the set operand the signature reads
  case negate =>
    split
    . exact Ensures.pure rfl
    . exact Ensures.bind (ih.argument _ _ _ 0 htyped) fun _ _ => Ensures.pure rfl
  case logical =>
    split
    . exact Ensures.pure rfl
    . exact Ensures.bind (ih.argument _ _ _ 0 htyped) fun _ _ =>
        Ensures.bind (ih.argument _ _ _ 1 htyped) fun _ _ => Ensures.pure rfl
  case not | isEmpty | parent | name | children =>
    exact Ensures.bind (ih.argument _ _ _ 0 htyped) fun _ _ => Ensures.pure rfl
  case format =>
    refine Ensures.bind (ih.argument _ _ _ 0 htyped) fun _ _ => ?_
    split
    . exact Ensures.pure rfl
    . exact Ensures.bind (ih.argument _ _ _ 1 htyped) fun _ _ => Ensures.pure rfl
  case currentMember | defaultMember | members =>
    split
    . exact Ensures.pure rfl
    . exact Ensures.throw id
  case slicer => exact Ensures.pure rfl
  case filter =>
    exact Ensures.bind (ih.setArgument _ _ _ _ htyped.hasShapes (htyped.cost_of_argType hops)) fun _ hs =>
      Ensures.bind (ih.argument _ _ _ 1 htyped) fun _ _ => Ensures.pure (Returns.setOf_shape hs)
  case topCount =>
    exact Ensures.bind (ih.setArgument _ _ _ _ htyped.hasShapes (htyped.cost_of_argType hops)) fun _ hs =>
      Ensures.bind (ih.argument _ _ _ 1 htyped) fun _ _ =>
        Ensures.bind (ih.optArgument _ _ _ 2 htyped) fun _ _ => Ensures.pure (Returns.setOf_shape hs)
  case bottomCount =>
    exact Ensures.bind (ih.setArgument _ _ _ _ htyped.hasShapes (htyped.cost_of_argType hops)) fun _ hs =>
      Ensures.bind (ih.argument _ _ _ 1 htyped) fun _ _ =>
        Ensures.bind (ih.argument _ _ _ 2 htyped) fun _ _ => Ensures.pure (Returns.setOf_shape hs)
  case head =>
    exact Ensures.bind (ih.setArgument _ _ _ _ htyped.hasShapes (htyped.cost_of_argType hops)) fun _ hs =>
      Ensures.bind (ih.optArgument _ _ _ 1 htyped) fun _ _ => Ensures.pure (Returns.setOf_shape hs)
  case order =>
    refine Ensures.bind (ih.setArgument _ _ _ _ htyped.hasShapes (htyped.cost_of_argType hops)) fun _ hs =>
      Ensures.bind (ih.argument _ _ _ 1 htyped) fun _ _ => ?_
    -- a known sort flag picks the direction, an unknown one is a type error
    split
    case h_6 => exact Ensures.throw_bind id
    all_goals exact Ensures.pure_bind (Ensures.pure (Returns.setOf_shape hs))
  case generate =>
    refine Ensures.bind (ih.setArgument _ _ _ _ htyped.hasShapes (htyped.cost_of_argType hops)) fun _ _ =>
      Ensures.bind (ih.setArgument _ _ _ _ htyped.hasShapes (htyped.cost_of_argType hops')) fun _ heach => ?_
    split
    case h_3 => exact Ensures.throw_bind id
    all_goals exact Ensures.pure_bind (Ensures.pure (Returns.setOf_shape heach))
  case count =>
    split
    case h_4 => exact Ensures.throw_bind id
    all_goals exact Ensures.pure_bind (Ensures.bind (ih.setArgument _ _ _ _ htyped.hasShapes
      (htyped.cost_of_argType hops)) fun _ _ => Ensures.pure rfl)
  case sum | avg | min | max | median | var | varP | stdev | stdevP | aggregate =>
    exact Ensures.bind (ih.setArgument _ _ _ _ htyped.hasShapes (htyped.cost_of_argType hops)) fun _ _ =>
      Ensures.bind (ih.optArgument _ _ _ 1 htyped) fun _ _ => Ensures.pure rfl
  case percentile =>
    exact Ensures.bind (ih.setArgument _ _ _ _ htyped.hasShapes (htyped.cost_of_argType hops)) fun _ _ =>
      Ensures.bind (ih.argument _ _ _ 1 htyped) fun _ _ =>
        Ensures.bind (ih.argument _ _ _ 2 htyped) fun _ _ => Ensures.pure rfl
  case linRegSlope | linRegIntercept | linRegR2 | linRegVariance | covariance | covarianceN
    | correlation =>
    simp only [Compiler.regression, Compiler.pairwise]
    exact Ensures.bind (ih.setArgument _ _ _ _ htyped.hasShapes (htyped.cost_of_argType hops)) fun _ _ =>
      Ensures.bind (ih.argument _ _ _ 1 htyped) fun _ _ =>
        Ensures.bind (ih.optArgument _ _ _ 2 htyped) fun _ _ => Ensures.pure rfl
  case linRegPoint =>
    exact Ensures.bind (ih.argument _ _ _ 0 htyped) fun _ _ =>
      Ensures.bind (ih.setArgument _ _ _ _ htyped.hasShapes (htyped.cost_of_argType hops)) fun _ _ =>
        Ensures.bind (ih.argument _ _ _ 2 htyped) fun _ _ =>
          Ensures.bind (ih.optArgument _ _ _ 3 htyped) fun _ _ => Ensures.pure rfl

end ShapesAt

theorem shapesAt (ht : t.Coherent) : ∀ fuel, ShapesAt t fuel
  | 0 => by
    refine ⟨fun _ => ?_, fun _ _ _ _ _ => ?_, fun _ _ _ _ _ => ?_, fun _ _ _ _ _ => ?_,
      fun _ _ _ _ _ => ?_, fun _ _ _ _ _ _ => ?_, fun _ _ _ _ _ _ => ?_, fun _ _ _ _ _ _ _ => ?_,
      fun _ _ _ _ => ?_, fun _ _ _ _ _ _ _ => ?_⟩
    all_goals simp only [Compiler.natural, Compiler.compile, Compiler.compileSet,
      Compiler.argument, Compiler.optArgument, Compiler.setArgument, Compiler.enumItems,
      Compiler.allArguments, Compiler.allSets, Compiler.build]
    all_goals exact Ensures.throw id
  | fuel + 1 =>
    have ih := shapesAt ht fuel
    ⟨ShapesAt.natural_succ ht ih, ShapesAt.compile_succ ht ih, ShapesAt.compileSet_succ ih,
      ShapesAt.argument_succ ih, ShapesAt.optArgument_succ ih, ShapesAt.setArgument_succ ih,
      ShapesAt.enumItems_succ ih, ShapesAt.allArguments_succ ih, ShapesAt.allSets_succ ih,
      ShapesAt.build_succ ih⟩

end Compiler

namespace FunctionTable

open Compiler

variable {t : FunctionTable}

theorem compile_agrees_with_inference (ht : t.Coherent) (e : Exp) (c : Category) :
    (∀ n, t.compile e c = .ok n →
      ∃ s, t.typeOf e = .ok s ∧ (conversionCost s c).isSome ∧ n.shape = s.convertedTo c) ∧
    (∀ s err, t.typeOf e = .ok s → t.compile e c = .error err → err.MissingConversion →
      conversionCost s c = none) ∧
    ∀ fuel n, natural t fuel e = .ok n → shapeOf t fuel e = .ok n.shape := by
  refine ⟨fun n hn => ?_, fun s err hs herr hmiss => ?_, fun fuel n hn => ?_⟩
  . -- the fuel `compile` starts from is a successor, so it compiles and then converts
    obtain ⟨fuel, hfuel⟩ : ∃ fuel, e.fuel = fuel + 1 := ⟨6 * e.size + 1, rfl⟩
    unfold FunctionTable.compile at hn
    rw [hfuel, Compiler.compile] at hn
    obtain ⟨n₀, hn₀, hconv⟩ := bind_eq_ok.mp hn
    have hshape := ((shapesAt ht fuel).natural e).of_ok hn₀
    obtain ⟨hnode, hcost⟩ := convert_shape hconv
    refine ⟨n₀.shape, ?_, hcost, hnode⟩
    unfold FunctionTable.typeOf
    rw [hfuel]
    exact shapeOf_succ hshape
  . -- were there a conversion, compilation would not fail for want of one
    by_contra hne
    have hcost : (conversionCost s c).isSome := Option.isSome_iff_ne_none.mpr hne
    exact ((shapesAt ht e.fuel).compile e c s ⟨e.fuel, hs⟩ hcost).of_error herr hmiss
  . exact ((shapesAt ht fuel).natural e).of_ok hn

/-- The compiler's shape inference agrees with the nodes the built-in functions build. -/
theorem builtins_compile_agrees_with_typeOf (e : Exp) (c : Category) :
    (∀ n, builtins.compile e c = .ok n →
      ∃ s, builtins.typeOf e = .ok s ∧ (conversionCost s c).isSome ∧ n.shape = s.convertedTo c) ∧
    (∀ s expression source target, builtins.typeOf e = .ok s →
      builtins.compile e c = .error (.noConversion expression source target) →
      conversionCost s c = none) ∧
    ∀ fuel n, natural builtins fuel e = .ok n → shapeOf builtins fuel e = .ok n.shape := by
  obtain ⟨hok, hmissing, hnatural⟩ := compile_agrees_with_inference builtins_coherent e c
  exact ⟨hok, fun s _ _ _ hs herr => hmissing s _ hs herr trivial, hnatural⟩

end FunctionTable

end OlapCalc
