import OlapCalc.Eval.Core
import OlapCalc.Proofs.ShapeInference

/-!
Operators on literals, folded while compiling.

The compiler folds an arithmetic operator over numeric or null literals, a negated number, a
comparison of two literals and `AND`/`OR` of two boolean literals to constants, and compiles a
literal `Format` pattern once. A fold is taken only where it succeeds, so a division by zero or a
comparison that fails is left to run. Each folded node stands for the operator node over the
compiled operands: it has its shape, and gives its value or error wherever it is evaluated.

The fold reads a literal directly, while the operator node reads its compiled operand at run
time, through a conversion for the null literal; `Compiler.literal_reads_as_number` is the one
place where the two readings meet.
-/

namespace OlapCalc

/-- `n` stands for `g` in the evaluation monad `m`: the two have one shape and compute the same
value or error, with the same effects, wherever they are evaluated with room for a literal
operand and its conversion below the node. -/
def Node.StandsFor (m : Type → Type) [Monad m] [MonadExceptOf OlapError m] [EvalMonad m]
    (n g : Node) : Prop :=
  n.shape = g.shape ∧ ∀ (env : Env) (fuel : Nat), (env.eval (fuel + 3) n : m Value) = env.eval (fuel + 3) g

theorem Node.StandsFor.refl {m : Type → Type} [Monad m] [MonadExceptOf OlapError m] [EvalMonad m]
    (n : Node) : n.StandsFor m n :=
  ⟨rfl, fun _ _ => rfl⟩

theorem FunctionTable.folding_signatures : ∀ spec ∈ FunctionTable.builtins.specs,
    (spec.builtin = .arithmetic → spec.argTypes = [.numeric, .numeric]) ∧
    (spec.builtin = .negate → spec.argTypes = [.numeric]) ∧
    (spec.builtin = .compare → spec.argTypes = [.value, .value]) ∧
    (spec.builtin = .logical → spec.argTypes = [.boolean, .boolean]) ∧
    (spec.builtin = .format → spec.argTypes = [.value, .string]) := by
  decide

namespace Compiler

variable {t : FunctionTable} {fuel : Nat}

theorem compile_literal (l : Literal) (c : Category) :
    compile t (fuel + 2) (.literal l) c = convert (.literal l) (.const l.value l.shape) c := by
  simp only [compile, natural]
  rfl

theorem argument_of_getElem? {spec : FunctionSpec} {args : List Exp} {i : Nat} {a : Exp}
    (h : args[i]? = some a) : argument t (fuel + 1) spec args i = compile t fuel a (spec.argType i) := by
  simp only [argument, h]

theorem compile_literal_value (l : Literal) {c : Category} (hc : c = .value ∨ c = l.shape.category) :
    compile t (fuel + 2) (.literal l) c = .ok (.const l.value l.shape) := by
  rw [compile_literal]
  rcases hc with rfl | rfl <;> cases l <;> rfl

section Runtime

variable {m : Type → Type} [Monad m] [LawfulMonad m] [MonadExceptOf OlapError m] [EvalMonad m]

omit [LawfulMonad m] [EvalMonad m] in
@[simp] theorem liftExcept_pure {α : Type} (a : α) :
    (liftExcept (pure a : Except OlapError α) : m α) = pure a := rfl

variable (t fuel) in
/-- A numeric or null literal compiled to a number reads, at run time, as the number the
compiler folds with: an integer through its conversion to binary64, the null literal through a
run-time conversion that keeps it null. -/
theorem literal_reads_as_number {e : Exp} {x : Option Float} (he : Literal.numeric? e = some x) :
    ∃ a, compile t (fuel + 2) e .numeric = .ok a ∧ ∀ (env : Env) (k : Nat),
      (env.eval (k + 2) a >>= fun v => liftExcept v.toNumber : m (Option Float)) = pure x := by
  rcases e with (_ | y | n | _ | _) | _ | _ | _ | _ | _
  all_goals simp only [Literal.numeric?, Option.some.injEq, reduceCtorEq] at he
  all_goals subst he
  · refine ⟨.coerce (.const .null .scalar) .numeric, by rw [compile_literal]; rfl, fun env k => ?_⟩
    simp [Env.eval, Value.toNumber, Value.ofOptFloat]
  · exact ⟨.const (.float y) .float, by rw [compile_literal]; rfl,
      fun env k => by simp [Env.eval, Value.toNumber]⟩
  · exact ⟨.const (.integer n) .integer, by rw [compile_literal]; rfl,
      fun env k => by simp [Env.eval, Value.toNumber]⟩

theorem eval_arith_of_numbers {op : ArithOp} {a b : Node} {x y v : Option Float}
    (ha : ∀ (env : Env) (k : Nat), (env.eval (k + 2) a >>= fun u => liftExcept u.toNumber : m _) = pure x)
    (hb : ∀ (env : Env) (k : Nat), (env.eval (k + 2) b >>= fun u => liftExcept u.toNumber : m _) = pure y)
    (hv : op.apply x y = .ok v) (env : Env) (k : Nat) :
    (env.eval (k + 3) (.arith op a b) : m Value) = pure (Value.ofOptFloat v) := by
  have ha := ha env k
  have hb := hb env k
  show (env.eval (k + 2 + 1) (.arith op a b) : m Value) = _
  generalize k + 2 = j at ha hb ⊢
  simp only [Env.eval]
  rw [← bind_assoc, ha, pure_bind]
  split
  · -- the left operand is null under `*`, where the operator gives null too
    next hmul =>
    simp only [Bool.and_eq_true, Option.isNone_iff_eq_none] at hmul
    obtain ⟨hop, rfl⟩ := hmul
    cases op <;> cases hop
    cases hv
    rfl
  · rw [← bind_assoc, hb, pure_bind, hv]
    simp [liftExcept]

variable {spec : FunctionSpec} {e : Exp} {name : String} {args : List Exp} {n : Node}

theorem build_arithmetic (hb : spec.builtin = .arithmetic)
    (hsig : spec.argTypes = [.numeric, .numeric]) (h : build t (fuel + 4) spec e name args = .ok n) :
    ∃ op a b, ArithOp.ofSymbol? name = some op ∧ argument t (fuel + 3) spec args 0 = .ok a ∧
      argument t (fuel + 3) spec args 1 = .ok b ∧ n.StandsFor m (.arith op a b) := by
  unfold build at h
  rw [hb] at h
  simp only at h
  split at h
  · next op hop =>
    split at h
    · next n' hfold =>
      cases h
      -- the operator was folded over two literals that read as the numbers it was applied to
      split at hfold
      · split at hfold
        · split at hfold
          · next l r x y hx hy _ v hv =>
            cases hfold
            obtain ⟨a, ha, hra⟩ := literal_reads_as_number t fuel (m := m) hx
            obtain ⟨b, hb', hrb⟩ := literal_reads_as_number t fuel (m := m) hy
            refine ⟨op, a, b, hop, ?_, ?_, rfl, fun env k => ?_⟩
            · rw [argument_of_getElem? rfl, FunctionSpec.argType, hsig]
              exact ha
            · rw [argument_of_getElem? rfl, FunctionSpec.argType, hsig]
              exact hb'
            · rw [eval_arith_of_numbers hra hrb hv]
              rfl
          · cases hfold
        · cases hfold
      · cases hfold
    · obtain ⟨a, ha, h⟩ := bind_eq_ok.mp h
      obtain ⟨b, hb', h⟩ := bind_eq_ok.mp h
      cases h
      exact ⟨op, a, b, hop, ha, hb', Node.StandsFor.refl _⟩
  · cases h

theorem build_negate (hb : spec.builtin = .negate) (hsig : spec.argTypes = [.numeric])
    (h : build t (fuel + 4) spec e name args = .ok n) :
    ∃ a, argument t (fuel + 3) spec args 0 = .ok a ∧ n.StandsFor m (.negate a) := by
  unfold build at h
  rw [hb] at h
  simp only at h
  split at h
  · next x hx =>
    cases h
    -- the operand is a literal that reads as the number negated
    obtain ⟨l, hl, hx⟩ := Option.bind_eq_some_iff.mp hx
    obtain ⟨a, ha, hra⟩ := literal_reads_as_number t fuel (m := m) hx
    refine ⟨a, ?_, rfl, fun env k => ?_⟩
    · rw [argument_of_getElem? (by rwa [List.head?_eq_getElem?] at hl), FunctionSpec.argType, hsig]
      exact ha
    · have hra := hra env k
      show _ = (env.eval (k + 2 + 1) (.negate a) : m Value)
      generalize k + 2 = j at hra ⊢
      simp only [Env.eval]
      rw [← bind_assoc, hra, pure_bind]
      rfl
  · obtain ⟨a, ha, h⟩ := bind_eq_ok.mp h
    cases h
    exact ⟨a, ha, Node.StandsFor.refl _⟩

theorem build_compare (hb : spec.builtin = .compare) (hsig : spec.argTypes = [.value, .value])
    (h : build t (fuel + 4) spec e name args = .ok n) :
    ∃ op a b, CompareOp.ofSymbol? name = some op ∧ argument t (fuel + 3) spec args 0 = .ok a ∧
      argument t (fuel + 3) spec args 1 = .ok b ∧ n.StandsFor m (.compare op a b) := by
  unfold build at h
  rw [hb] at h
  simp only at h
  split at h
  · next op hop =>
    split at h
    · next n' hfold =>
      cases h
      -- both operands are literals, compiled as values to their constants
      split at hfold
      · split at hfold
        · next l r _ v hv =>
          cases hfold
          refine ⟨op, .const l.value l.shape, .const r.value r.shape, hop, ?_, ?_, rfl, fun env k => ?_⟩
          · rw [argument_of_getElem? rfl, FunctionSpec.argType, hsig]
            exact compile_literal_value l (.inl rfl)
          · rw [argument_of_getElem? rfl, FunctionSpec.argType, hsig]
            exact compile_literal_value r (.inl rfl)
          · simp [Env.eval, hv]
            rfl
        · cases hfold
      · cases hfold
    · obtain ⟨a, ha, h⟩ := bind_eq_ok.mp h
      obtain ⟨b, hb', h⟩ := bind_eq_ok.mp h
      cases h
      exact ⟨op, a, b, hop, ha, hb', Node.StandsFor.refl _⟩
  · cases h

theorem build_logical (hb : spec.builtin = .logical) (hsig : spec.argTypes = [.boolean, .boolean])
    (h : build t (fuel + 4) spec e name args = .ok n) :
    ∃ a b, argument t (fuel + 3) spec args 0 = .ok a ∧ argument t (fuel + 3) spec args 1 = .ok b ∧
      n.StandsFor m (.logical (Exp.sameName name "AND") a b) := by
  unfold build at h
  rw [hb] at h
  simp only at h
  split at h
  · next l r =>
    cases h
    refine ⟨.const (.boolean l) .boolean, .const (.boolean r) .boolean, ?_, ?_, rfl,
      fun env k => ?_⟩
    · rw [argument_of_getElem? rfl, FunctionSpec.argType, hsig]
      exact compile_literal_value (.boolean l) (.inr rfl)
    · rw [argument_of_getElem? rfl, FunctionSpec.argType, hsig]
      exact compile_literal_value (.boolean r) (.inr rfl)
    · -- `AND` reads its right operand only after a true left one, `OR` after a false one
      cases Exp.sameName name "AND" <;> cases l <;> cases r <;> simp [Env.eval, Value.toBoolean]
  · obtain ⟨a, ha, h⟩ := bind_eq_ok.mp h
    obtain ⟨b, hb', h⟩ := bind_eq_ok.mp h
    cases h
    exact ⟨a, b, ha, hb', Node.StandsFor.refl _⟩

theorem build_format (hb : spec.builtin = .format) (hsig : spec.argTypes = [.value, .string])
    (h : build t (fuel + 4) spec e name args = .ok n) :
    ∃ a b, argument t (fuel + 3) spec args 0 = .ok a ∧ argument t (fuel + 3) spec args 1 = .ok b ∧
      n.StandsFor m (.formatWith a b) := by
  unfold build at h
  rw [hb] at h
  simp only at h
  obtain ⟨a, ha, h⟩ := bind_eq_ok.mp h
  split at h
  · next p hp =>
    cases h
    refine ⟨a, .const (.string p) .string, ha, ?_, rfl, fun env k => ?_⟩
    · rw [argument_of_getElem? hp, FunctionSpec.argType, hsig]
      exact compile_literal_value (.string p) (.inr rfl)
    · -- the pattern compiled once is the one the node reads back on every evaluation
      have hpattern : (env.eval (k + 2) (.const (.string p) .string) : m Value) = pure (.string p) :=
        rfl
      show (env.eval (k + 2 + 1) _ : m Value) = env.eval (k + 2 + 1) _
      generalize k + 2 = j at hpattern ⊢
      simp only [Env.eval]
      rw [hpattern]
      simp [Value.toText]
  · obtain ⟨b, hb', h⟩ := bind_eq_ok.mp h
    cases h
    exact ⟨a, b, ha, hb', Node.StandsFor.refl _⟩

/-- Compile-time specialisation agrees with the generic nodes. A built-in operator call that
the compiler folds (arithmetic and negation of numeric or null literals, a comparison of two
literals, `AND` or `OR` of two boolean literals) or precompiles (`Format` with a literal pattern)
builds a node that stands for the operator node over the compiled operands: the same shape, and
the same value or error with the same effects in every lawful evaluation monad, the evaluator's
own included. Where nothing is folded the node built is that operator node. -/
theorem specialised_node_agrees_with_operator (hspec : spec ∈ FunctionTable.builtins.specs)
    (h : build t (fuel + 4) spec e name args = .ok n) :
    (spec.builtin = .arithmetic → ∃ op a b, ArithOp.ofSymbol? name = some op ∧
      argument t (fuel + 3) spec args 0 = .ok a ∧ argument t (fuel + 3) spec args 1 = .ok b ∧
      n.StandsFor m (.arith op a b)) ∧
    (spec.builtin = .negate → ∃ a, argument t (fuel + 3) spec args 0 = .ok a ∧
      n.StandsFor m (.negate a)) ∧
    (spec.builtin = .compare → ∃ op a b, CompareOp.ofSymbol? name = some op ∧
      argument t (fuel + 3) spec args 0 = .ok a ∧ argument t (fuel + 3) spec args 1 = .ok b ∧
      n.StandsFor m (.compare op a b)) ∧
    (spec.builtin = .logical → ∃ a b, argument t (fuel + 3) spec args 0 = .ok a ∧
      argument t (fuel + 3) spec args 1 = .ok b ∧
      n.StandsFor m (.logical (Exp.sameName name "AND") a b)) ∧
    (spec.builtin = .format → ∃ a b, argument t (fuel + 3) spec args 0 = .ok a ∧
      argument t (fuel + 3) spec args 1 = .ok b ∧ n.StandsFor m (.formatWith a b)) := by
  obtain ⟨harith, hnegate, hcompare, hlogical, hformat⟩ :=
    FunctionTable.folding_signatures spec hspec
  exact ⟨fun hb => build_arithmetic hb (harith hb) h, fun hb => build_negate hb (hnegate hb) h,
    fun hb => build_compare hb (hcompare hb) h, fun hb => build_logical hb (hlogical hb) h,
    fun hb => build_format hb (hformat hb) h⟩

end Runtime

/-- `1 / NULL` is folded to a null of float shape, which stands for the division node. -/
theorem specialised_node_agrees_with_operator_null_quotient :
    let spec : FunctionSpec := ⟨"/", .operator, 2, 2, .fixed .float, [.numeric, .numeric], .arithmetic⟩
    let args : List Exp := [.literal (.integer 1), .literal .null]
    spec ∈ FunctionTable.builtins.specs ∧
      build FunctionTable.builtins 4 spec (.call "/" .operator args) "/" args =
        .ok (.const .null .float) ∧
      ∃ op a b, ArithOp.ofSymbol? "/" = some op ∧
        argument FunctionTable.builtins 3 spec args 0 = .ok a ∧
        argument FunctionTable.builtins 3 spec args 1 = .ok b ∧
        (Node.const .null .float).StandsFor EvalOn (.arith op a b) := by
  intro spec args
  have hspec : spec ∈ FunctionTable.builtins.specs := by
    simp [spec, FunctionTable.builtins, FunctionTable.operators]
  have h : build FunctionTable.builtins 4 spec (.call "/" .operator args) "/" args =
      .ok (.const .null .float) := by
    have hdiv : ArithOp.ofSymbol? "/" = some .div := rfl
    unfold build
    simp only [spec, hdiv]
    rfl
  exact ⟨hspec, h, (specialised_node_agrees_with_operator (m := EvalOn) hspec h).1 rfl⟩

end Compiler

end OlapCalc
