import OlapCalc.Proofs.CompileErrors

/-!
The compiler's nesting bound is never the limiting factor.

The compiler's functions recurse on a fuel argument, and running out of it is an internal
error. `Exp.fuel` is the fuel compilation starts from. A call spends a few levels of fuel on
itself and one more on each argument it walks past, so six levels per node of the expression
reach every argument of every call. From that bound on, more fuel changes nothing, and the
outcome is never the error of running out.

The proof runs over the compiler's mutual functions one fuel level at a time (`StableAt`),
comparing each function at two neighbouring levels through the relation `Steady`: the same
outcome, and not an exhaustion error. The bound each function needs is read off its own
recursion: its argument's size, or the size of the arguments it has still to walk.
-/

namespace OlapCalc

/-- The error of a nesting bound running out: the compiler's or the evaluator's. -/
def OlapError.OutOfFuel (e : OlapError) : Prop :=
  e = .internal "expression nested too deeply" ∨ e = fuelExhausted

namespace OlapError

theorem not_outOfFuel_of_mem {msg : String} (c : Char) (hc : c ∈ msg.toList)
    (h₁ : c ∉ "expression nested too deeply".toList) (h₂ : c ∉ "evaluation nested too deeply".toList) :
    ¬ (OlapError.internal msg).OutOfFuel := by
  rintro (h | h) <;> cases h
  . exact h₁ hc
  . exact h₂ hc

theorem not_outOfFuel_append (c : Char) {p : String} (s : String)
    (h : c ∈ p.toList ∧ c ∉ "expression nested too deeply".toList ∧
      c ∉ "evaluation nested too deeply".toList) :
    ¬ (OlapError.internal (p ++ s)).OutOfFuel :=
  not_outOfFuel_of_mem c (by simp [h.1]) h.2.1 h.2.2

theorem typeError_not_outOfFuel (msg : String) : ¬ (OlapError.typeError msg).OutOfFuel := by
  rintro (h | h) <;> cases h

theorem noConversion_not_outOfFuel (text : String) (source : Shape) (target : Category) :
    ¬ (OlapError.noConversion text source target).OutOfFuel := by
  rintro (h | h) <;> cases h

theorem Ordinary.not_outOfFuel {e : OlapError} (h : e.Ordinary) : ¬ e.OutOfFuel := by
  cases e with
  | internal msg =>
    obtain ⟨rest, rfl⟩ := h
    exact not_outOfFuel_append 'c' rest (by decide)
  | _ =>
    rintro (h | h) <;> cases h

end OlapError

namespace Exp

theorem one_le_size (e : Exp) : 1 ≤ e.size := by
  cases e <;> simp [size]

theorem size_le_sizeAll {a : Exp} : ∀ {args : List Exp}, a ∈ args → a.size ≤ sizeAll args
  | _ :: rest, h => by
    rcases List.mem_cons.mp h with rfl | h
    . simp [sizeAll]
    . have := size_le_sizeAll h
      simp only [sizeAll]
      omega

theorem size_le_sizeAll_of_getElem? {args : List Exp} {i : Nat} {a : Exp} (h : args[i]? = some a) :
    a.size ≤ sizeAll args :=
  size_le_sizeAll (List.mem_of_getElem? h)

theorem sizeAll_drop {args : List Exp} {i : Nat} {a : Exp} (h : args[i]? = some a) :
    sizeAll (args.drop i) = a.size + sizeAll (args.drop (i + 1)) := by
  obtain ⟨hi, rfl⟩ := List.getElem?_eq_some_iff.mp h
  rw [List.drop_eq_getElem_cons hi, sizeAll]

theorem size_call (name : String) (style : CallSyntax) (args : List Exp) :
    (Exp.call name style args).size = sizeAll args + 1 := rfl

end Exp

namespace Compiler

variable {α β : Type} {t : FunctionTable}

/-- `x` and `y` have the same outcome, and it is not the error of running out of fuel. -/
def Steady (x y : Except OlapError α) : Prop := x = y ∧ RaisesIn (¬ ·.OutOfFuel) x

namespace Steady

theorem quiet {x : Except OlapError α} (h : RaisesIn (¬ ·.OutOfFuel) x) : Steady x x := ⟨rfl, h⟩

theorem pure (a : α) : Steady (Pure.pure a : Except OlapError α) (Pure.pure a) :=
  quiet (RaisesIn.pure a)

theorem throw {e : OlapError} (h : ¬ e.OutOfFuel) :
    Steady (MonadExcept.throw e : Except OlapError α) (MonadExcept.throw e) :=
  quiet (RaisesIn.throw h)

theorem bind {x y : Except OlapError α} {f g : α → Except OlapError β} (hx : Steady x y)
    (hf : ∀ a, x = .ok a → Steady (f a) (g a)) : Steady (x >>= f) (y >>= g) := by
  obtain ⟨rfl, hq⟩ := hx
  cases x with
  | error e => exact ⟨rfl, fun err h => by cases h; exact hq _ rfl⟩
  | ok a => exact hf a rfl

theorem throw_bind {e : OlapError} {f g : α → Except OlapError β} (h : ¬ e.OutOfFuel) :
    Steady (MonadExcept.throw e >>= f) (MonadExcept.throw e >>= g) :=
  bind (throw h) fun _ h => by cases h

theorem map {x y : Except OlapError α} (f : α → β) (hx : Steady x y) : Steady (f <$> x) (f <$> y) := by
  rw [map_eq_pure_bind, map_eq_pure_bind]
  exact bind hx fun a _ => pure (f a)

theorem mapM {f g : α → Except OlapError β} :
    ∀ {l : List α}, (∀ a ∈ l, Steady (f a) (g a)) → Steady (l.mapM f) (l.mapM g)
  | [], _ => pure _
  | a :: l, h => by
    rw [List.mapM_cons, List.mapM_cons]
    exact bind (h a List.mem_cons_self) fun _ _ =>
      bind (mapM fun b hb => h b (List.mem_cons_of_mem a hb)) fun _ _ => pure _

end Steady

theorem eq_of_steady {f : Nat → Except OlapError α} {k : Nat}
    (h : ∀ n, k ≤ n → Steady (f n) (f (n + 1))) :
    ∀ n, k ≤ n → f n = f k ∧ RaisesIn (¬ ·.OutOfFuel) (f k) := by
  intro n hn
  obtain ⟨d, rfl⟩ := Nat.exists_eq_add_of_le hn
  induction d with
  | zero => exact ⟨rfl, (h k (Nat.le_refl k)).2⟩
  | succ d ih =>
    have hd := ih (Nat.le_add_right k d)
    exact ⟨(h (k + d) (Nat.le_add_right k d)).1.symm.trans hd.1, hd.2⟩

theorem convert_quiet (e : Exp) (n : Node) (c : Category) :
    RaisesIn (¬ ·.OutOfFuel) (convert e n c) := by
  unfold convert
  dsimp only
  split
  . exact RaisesIn.pure _
  split
  . exact RaisesIn.pure _
  split
  case h_30 =>
    -- a hierarchy converts to a member only when it is written as one
    split
    . exact RaisesIn.pure _
    . exact RaisesIn.throw (OlapError.noConversion_not_outOfFuel _ _ _)
  case h_31 => exact RaisesIn.throw (OlapError.noConversion_not_outOfFuel _ _ _)
  all_goals exact RaisesIn.pure _

theorem resolve_quiet (name : String) (style : CallSyntax) (shapes : List Shape) :
    RaisesIn (¬ ·.OutOfFuel) (t.resolve name style shapes) := by
  unfold FunctionTable.resolve
  dsimp only
  split
  . exact RaisesIn.pure _
  . exact RaisesIn.throw (by simp [OlapError.OutOfFuel, fuelExhausted])

/-- At level `k`, each function of the compiler has the outcome it has one level up, and it is
not running out of fuel, once `k` covers what the function still has to descend. -/
structure StableAt (t : FunctionTable) (k : Nat) : Prop where
  shapeOf : ∀ e, e.size ≤ k → Steady (shapeOf t k e) (shapeOf t (k + 1) e)
  natural : ∀ e, 6 * e.size ≤ k → Steady (natural t k e) (natural t (k + 1) e)
  compile : ∀ e c, 6 * e.size + 1 ≤ k → Steady (compile t k e c) (compile t (k + 1) e c)
  compileSet : ∀ e accepts, 6 * e.size + 2 ≤ k →
    Steady (compileSet t k e accepts) (compileSet t (k + 1) e accepts)
  argument : ∀ spec args i, 1 ≤ k → (∀ a, args[i]? = some a → 6 * a.size + 2 ≤ k) →
    Steady (argument t k spec args i) (argument t (k + 1) spec args i)
  optArgument : ∀ spec args i, 1 ≤ k → (∀ a, args[i]? = some a → 6 * a.size + 2 ≤ k) →
    Steady (optArgument t k spec args i) (optArgument t (k + 1) spec args i)
  setArgument : ∀ args i accepts, 1 ≤ k → (∀ a, args[i]? = some a → 6 * a.size + 3 ≤ k) →
    Steady (setArgument t k args i accepts) (setArgument t (k + 1) args i accepts)
  enumItems : ∀ whole items arity, 6 * Exp.sizeAll items + 3 ≤ k →
    Steady (enumItems t k whole items arity) (enumItems t (k + 1) whole items arity)
  allArguments : ∀ spec args i, 6 * Exp.sizeAll (args.drop i) + 3 ≤ k →
    Steady (allArguments t k spec args i) (allArguments t (k + 1) spec args i)
  allSets : ∀ args, 6 * Exp.sizeAll args + 3 ≤ k → Steady (allSets t k args) (allSets t (k + 1) args)
  build : ∀ spec e name args, 6 * Exp.sizeAll args + 5 ≤ k →
    Steady (build t k spec e name args) (build t (k + 1) spec e name args)

namespace StableAt

variable {k : Nat}

-- no function needs less than one level, and no expression is smaller than one
theorem zero (t : FunctionTable) : StableAt t 0 where
  shapeOf e h := absurd h (by have := e.one_le_size; omega)
  natural e h := absurd h (by have := e.one_le_size; omega)
  compile _ _ h := absurd h (by omega)
  compileSet _ _ h := absurd h (by omega)
  argument _ _ _ h := absurd h (by omega)
  optArgument _ _ _ h := absurd h (by omega)
  setArgument _ _ _ h := absurd h (by omega)
  enumItems _ _ _ h := absurd h (by omega)
  allArguments _ _ _ h := absurd h (by omega)
  allSets _ h := absurd h (by omega)
  build _ _ _ _ h := absurd h (by omega)

theorem shapeOf_succ (ih : StableAt t k) (e : Exp) (he : e.size ≤ k + 1) :
    Steady (Compiler.shapeOf t (k + 1) e) (Compiler.shapeOf t (k + 2) e) := by
  cases e with
  | call name style args =>
    simp only [Compiler.shapeOf]
    rw [Exp.size_call] at he
    refine Steady.bind (Steady.mapM fun a ha => ih.shapeOf a ?_) fun shapes _ => ?_
    . have := Exp.size_le_sizeAll ha
      omega
    exact Steady.bind (Steady.quiet (resolve_quiet _ _ _)) fun _ _ => Steady.pure _
  | _ => exact Steady.pure _

theorem natural_succ (ih : StableAt t k) (e : Exp) (he : 6 * e.size ≤ k + 1) :
    Steady (Compiler.natural t (k + 1) e) (Compiler.natural t (k + 2) e) := by
  cases e with
  | call name style args =>
    simp only [Compiler.natural]
    rw [Exp.size_call] at he
    refine Steady.bind (Steady.mapM fun a ha => ih.shapeOf a ?_) fun shapes _ => ?_
    . have := Exp.size_le_sizeAll ha
      omega
    exact Steady.bind (Steady.quiet (resolve_quiet _ _ _)) fun spec _ =>
      ih.build spec _ name args (by omega)
  | _ =>
    simp only [Compiler.natural]
    exact Steady.pure _

theorem compile_succ (ih : StableAt t k) (e : Exp) (c : Category) (he : 6 * e.size + 1 ≤ k + 1) :
    Steady (Compiler.compile t (k + 1) e c) (Compiler.compile t (k + 2) e c) := by
  simp only [Compiler.compile]
  exact Steady.bind (ih.natural e (by omega)) fun n _ => Steady.quiet (convert_quiet e n c)

theorem compileSet_succ (ih : StableAt t k) (e : Exp) (accepts : List ResultStyle)
    (he : 6 * e.size + 2 ≤ k + 1) :
    Steady (Compiler.compileSet t (k + 1) e accepts) (Compiler.compileSet t (k + 2) e accepts) := by
  simp only [Compiler.compileSet]
  refine Steady.bind (ih.compile e .set (by omega)) fun n _ => ?_
  split
  . exact Steady.pure _
  . exact Steady.throw (by simp [OlapError.OutOfFuel, fuelExhausted])

theorem missing_not_outOfFuel (spec : FunctionSpec) (i : Nat) :
    ¬ (OlapError.internal (spec.name ++ ": missing argument " ++ toString i)).OutOfFuel ∧
      ¬ (OlapError.internal ("missing argument " ++ toString i)).OutOfFuel :=
  ⟨OlapError.not_outOfFuel_of_mem 'm' (by simp) (by decide) (by decide),
    OlapError.not_outOfFuel_of_mem 'm' (by simp) (by decide) (by decide)⟩

theorem argument_succ (ih : StableAt t k) (spec : FunctionSpec) (args : List Exp) (i : Nat)
    (ha : ∀ a, args[i]? = some a → 6 * a.size + 2 ≤ k + 1) :
    Steady (Compiler.argument t (k + 1) spec args i) (Compiler.argument t (k + 2) spec args i) := by
  simp only [Compiler.argument]
  split
  . next a h => exact ih.compile a _ (by have := ha a h; omega)
  . exact Steady.throw (missing_not_outOfFuel spec i).1

theorem optArgument_succ (ih : StableAt t k) (spec : FunctionSpec) (args : List Exp) (i : Nat)
    (ha : ∀ a, args[i]? = some a → 6 * a.size + 2 ≤ k + 1) :
    Steady (Compiler.optArgument t (k + 1) spec args i)
      (Compiler.optArgument t (k + 2) spec args i) := by
  simp only [Compiler.optArgument]
  split
  . next a h => exact Steady.map _ (ih.compile a _ (by have := ha a h; omega))
  . exact Steady.pure _

theorem setArgument_succ (ih : StableAt t k) (args : List Exp) (i : Nat)
    (accepts : List ResultStyle) (ha : ∀ a, args[i]? = some a → 6 * a.size + 3 ≤ k + 1) :
    Steady (Compiler.setArgument t (k + 1) args i accepts)
      (Compiler.setArgument t (k + 2) args i accepts) := by
  simp only [Compiler.setArgument]
  split
  . next a h => exact ih.compileSet a _ (by have := ha a h; omega)
  . exact Steady.throw (missing_not_outOfFuel ⟨"", .function, 0, 0, .unified 0, [], .slicer⟩ i).2

theorem enumItems_succ (ih : StableAt t k) (whole : Exp) (items : List Exp) (arity : Option Nat)
    (hitems : 6 * Exp.sizeAll items + 3 ≤ k + 1) :
    Steady (Compiler.enumItems t (k + 1) whole items arity)
      (Compiler.enumItems t (k + 2) whole items arity) := by
  cases items with
  | nil =>
    simp only [Compiler.enumItems]
    exact Steady.pure _
  | cons item rest =>
    simp only [Compiler.enumItems]
    simp only [Exp.sizeAll] at hitems
    have hitem := item.one_le_size
    refine Steady.bind (ih.shapeOf item (by omega)) fun shape _ => ?_
    -- the item's arity is checked against the set's so far, then the item is compiled as a
    -- member or tuple, or spliced as a set, and the rest read, one level down
    split
    case' h_1 =>
      split
      case' isTrue => exact Steady.throw_bind (OlapError.typeError_not_outOfFuel _)
    all_goals
      split
      . exact Steady.bind (Steady.map _ (ih.compile item _ (by omega))) fun _ _ =>
          Steady.bind (ih.enumItems whole rest _ (by omega)) fun _ _ => Steady.pure _
      . exact Steady.bind (Steady.map _ (ih.compile item _ (by omega))) fun _ _ =>
          Steady.bind (ih.enumItems whole rest _ (by omega)) fun _ _ => Steady.pure _
      . exact Steady.bind (Steady.map _ (ih.compileSet item _ (by omega))) fun _ _ =>
          Steady.bind (ih.enumItems whole rest _ (by omega)) fun _ _ => Steady.pure _

theorem allArguments_succ (ih : StableAt t k) (spec : FunctionSpec) (args : List Exp) (i : Nat)
    (hargs : 6 * Exp.sizeAll (args.drop i) + 3 ≤ k + 1) :
    Steady (Compiler.allArguments t (k + 1) spec args i)
      (Compiler.allArguments t (k + 2) spec args i) := by
  rw [Compiler.allArguments, Compiler.allArguments]
  split
  . next hi =>
    -- the `i`-th argument one level down, and the arguments after it
    obtain ⟨a, ha⟩ : ∃ a, args[i]? = some a := ⟨args[i], List.getElem?_eq_getElem hi⟩
    rw [Exp.sizeAll_drop ha] at hargs
    have := a.one_le_size
    refine Steady.bind (ih.argument spec args i (by omega) fun b hb => ?_) fun _ _ =>
      Steady.bind (ih.allArguments spec args (i + 1) (by omega)) fun _ _ => Steady.pure _
    rw [ha] at hb
    cases hb
    omega
  . exact Steady.pure _

theorem allSets_succ (ih : StableAt t k) (args : List Exp)
    (hargs : 6 * Exp.sizeAll args + 3 ≤ k + 1) :
    Steady (Compiler.allSets t (k + 1) args) (Compiler.allSets t (k + 2) args) := by
  cases args with
  | nil =>
    simp only [Compiler.allSets]
    exact Steady.pure _
  | cons a rest =>
    simp only [Compiler.allSets]
    simp only [Exp.sizeAll] at hargs
    have := a.one_le_size
    exact Steady.bind (ih.compileSet a _ (by omega)) fun _ _ =>
      Steady.bind (ih.allSets rest (by omega)) fun _ _ => Steady.pure _

theorem build_succ (ih : StableAt t k) (spec : FunctionSpec) (e : Exp) (name : String)
    (args : List Exp) (hargs : 6 * Exp.sizeAll args + 5 ≤ k + 1) :
    Steady (Compiler.build t (k + 1) spec e name args)
      (Compiler.build t (k + 2) spec e name args) := by
  -- every argument, and the whole list of them, is within what the call leaves one level down
  have harg : ∀ (i : Nat) (a : Exp), args[i]? = some a → 6 * a.size + 3 ≤ k := fun i a ha => by
    have := Exp.size_le_sizeAll_of_getElem? ha
    omega
  have hall : 6 * Exp.sizeAll (args.drop 0) + 3 ≤ k := by
    rw [List.drop_zero]
    omega
  have hk : 1 ≤ k := by omega
  -- what the call's operands compile to one level down, whichever way they are read
  have hone : ∀ spec i, Steady (Compiler.argument t k spec args i) (Compiler.argument t (k + 1) spec args i) :=
    fun spec i => ih.argument spec args i hk fun a ha => by have := harg i a ha; omega
  have hopt : ∀ spec i, Steady (Compiler.optArgument t k spec args i) (Compiler.optArgument t (k + 1) spec args i) :=
    fun spec i => ih.optArgument spec args i hk fun a ha => by have := harg i a ha; omega
  have hset : ∀ i accepts, Steady (Compiler.setArgument t k args i accepts)
      (Compiler.setArgument t (k + 1) args i accepts) :=
    fun i accepts => ih.setArgument args i accepts hk (harg i)
  have hevery : ∀ spec, Steady (Compiler.allArguments t k spec args 0) (Compiler.allArguments t (k + 1) spec args 0) :=
    fun spec => ih.allArguments spec args 0 hall
  have hsets : Steady (Compiler.allSets t k args) (Compiler.allSets t (k + 1) args) := ih.allSets args (by omega)
  have hitems : ∀ arity, Steady (Compiler.enumItems t k e args arity) (Compiler.enumItems t (k + 1) e args arity) :=
    fun arity => ih.enumItems e args arity (by omega)
  obtain ⟨sname, style, minArgs, maxArgs, returns, argTypes, builtin⟩ := spec
  unfold Compiler.build
  -- one case per implementation, each reading its operands one level down
  cases builtin <;> dsimp only
  case arithmetic | compare =>
    split
    . -- a folded operation on literals, or one on its two compiled operands
      split
      . exact Steady.pure _
      . exact Steady.bind (hone _ 0) fun _ _ => Steady.bind (hone _ 1) fun _ _ => Steady.pure _
    . exact Steady.throw (OlapError.not_outOfFuel_append 'k' _ (by decide))
  case negate =>
    split
    . exact Steady.pure _
    . exact Steady.bind (hone _ 0) fun _ _ => Steady.pure _
  case logical =>
    split
    . exact Steady.pure _
    . exact Steady.bind (hone _ 0) fun _ _ => Steady.bind (hone _ 1) fun _ _ => Steady.pure _
  case not | isEmpty | parent | name | children =>
    exact Steady.bind (hone _ 0) fun _ _ => Steady.pure _
  case iif =>
    exact Steady.bind (hone _ 0) fun _ _ => Steady.bind (hone _ 1) fun _ _ =>
      Steady.bind (hone _ 2) fun _ _ => Steady.pure _
  case coalesceEmpty | tuple => exact Steady.bind (hevery _) fun _ _ => Steady.pure _
  case format =>
    refine Steady.bind (hone _ 0) fun _ _ => ?_
    split
    . exact Steady.pure _
    . exact Steady.bind (hone _ 1) fun _ _ => Steady.pure _
  case currentMember | defaultMember | members =>
    split
    . exact Steady.pure _
    . exact Steady.throw (OlapError.typeError_not_outOfFuel _)
  case braces => exact Steady.bind (hitems _) fun _ _ => Steady.pure _
  case crossJoin | nonEmptyCrossJoin => exact Steady.bind hsets fun _ _ => Steady.pure _
  case slicer => exact Steady.pure _
  case filter => exact Steady.bind (hset 0 _) fun _ _ => Steady.bind (hone _ 1) fun _ _ => Steady.pure _
  case topCount =>
    exact Steady.bind (hset 0 _) fun _ _ => Steady.bind (hone _ 1) fun _ _ =>
      Steady.bind (hopt _ 2) fun _ _ => Steady.pure _
  case bottomCount | percentile =>
    exact Steady.bind (hset 0 _) fun _ _ => Steady.bind (hone _ 1) fun _ _ =>
      Steady.bind (hone _ 2) fun _ _ => Steady.pure _
  case head | sum | avg | min | max | median | var | varP | stdev | stdevP | aggregate =>
    exact Steady.bind (hset 0 _) fun _ _ => Steady.bind (hopt _ 1) fun _ _ => Steady.pure _
  case linRegSlope | linRegIntercept | linRegR2 | linRegVariance | covariance | covarianceN
    | correlation =>
    simp only [Compiler.regression, Compiler.pairwise]
    exact Steady.bind (hset 0 _) fun _ _ => Steady.bind (hone _ 1) fun _ _ =>
      Steady.bind (hopt _ 2) fun _ _ => Steady.pure _
  case linRegPoint =>
    exact Steady.bind (hone _ 0) fun _ _ => Steady.bind (hset 1 _) fun _ _ =>
      Steady.bind (hone _ 2) fun _ _ => Steady.bind (hopt _ 3) fun _ _ => Steady.pure _
  -- the flags: each known one picks a value, an unknown one is a type error
  case order =>
    refine Steady.bind (hset 0 _) fun _ _ => Steady.bind (hone _ 1) fun _ _ => ?_
    split
    case h_6 => exact Steady.throw_bind (OlapError.typeError_not_outOfFuel _)
    all_goals exact Steady.bind (Steady.pure _) fun _ _ => Steady.pure _
  case generate =>
    refine Steady.bind (hset 0 _) fun _ _ => Steady.bind (hset 1 _) fun _ _ => ?_
    split
    case h_3 => exact Steady.throw_bind (OlapError.typeError_not_outOfFuel _)
    all_goals exact Steady.bind (Steady.pure _) fun _ _ => Steady.pure _
  case count =>
    split
    case h_4 => exact Steady.throw_bind (OlapError.typeError_not_outOfFuel _)
    all_goals exact Steady.bind (Steady.pure _) fun _ _ =>
      Steady.bind (hset 0 _) fun _ _ => Steady.pure _

end StableAt

theorem stableAt (t : FunctionTable) : ∀ k, StableAt t k
  | 0 => StableAt.zero t
  | k + 1 =>
    have ih := stableAt t k
    ⟨ih.shapeOf_succ, ih.natural_succ, ih.compile_succ, ih.compileSet_succ,
      fun spec args i _ h => ih.argument_succ spec args i h,
      fun spec args i _ h => ih.optArgument_succ spec args i h,
      fun args i accepts _ h => ih.setArgument_succ args i accepts h, ih.enumItems_succ,
      ih.allArguments_succ, ih.allSets_succ, ih.build_succ⟩

end Compiler

namespace FunctionTable

theorem compile_settles (t : FunctionTable) (e : Exp) (c : Category) :
    RaisesIn (¬ ·.OutOfFuel) (t.compile e c) ∧
      ∀ n, e.fuel ≤ n → Compiler.compile t n e c = t.compile e c := by
  have h := Compiler.eq_of_steady (f := fun n => Compiler.compile t n e c) (k := e.fuel)
    fun n hn => (Compiler.stableAt t n).compile e c (by simp only [Exp.fuel] at hn; omega)
  exact ⟨(h e.fuel (Nat.le_refl _)).2, fun n hn => (h n hn).1⟩

end FunctionTable

end OlapCalc
