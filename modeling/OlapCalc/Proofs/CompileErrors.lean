import OlapCalc.Proofs.Scope
import OlapCalc.Cube.Presets
import OlapCalc.Service.Answer

/-!
The operations evaluation runs that never compile.

Errors of the compile kind (no conversion, no matching function, no acceptable representation,
type errors) are made by the compiler alone. The conversions of values, the arithmetic and the
comparisons of the evaluator, the reads of the cube, the result limiter and the checks between
steps raise errors of the cell or the fatal kind only (`RaisesIn`, `Eval.Raises`): whatever
compile-kind error an evaluation raises comes from elsewhere. Most of them raise only the
ordinary errors of a computation (`OlapError.Ordinary`): evaluation failures, unknown or null
members, division by zero, the backend's and the limits' errors, and the internal error of a
value produced where a member, a tuple or a set was expected.
-/

namespace OlapCalc

variable {α β : Type}

/-- An error confined to a cell or fatal to the whole computation, not one of compiling. -/
def OlapError.NotCompile (e : OlapError) : Prop := e.kind ≠ .compile

/-- Every error `x` can fail with satisfies `E`. -/
def RaisesIn (E : OlapError → Prop) (x : Except OlapError α) : Prop := ∀ e, x = .error e → E e

namespace RaisesIn

variable {E : OlapError → Prop}

theorem pure (a : α) : RaisesIn E (Pure.pure a : Except OlapError α) := fun _ h => by cases h

theorem throw {e : OlapError} (h : E e) : RaisesIn E (MonadExcept.throw e : Except OlapError α) :=
  fun _ he => by cases he; exact h

theorem bind {x : Except OlapError α} {f : α → Except OlapError β} (hx : RaisesIn E x)
    (hf : ∀ a, RaisesIn E (f a)) : RaisesIn E (x >>= f) := by
  intro e h
  cases x with
  | error e' =>
    cases h
    exact hx _ rfl
  | ok a => exact hf a e h

theorem mapM {f : α → Except OlapError β} (hf : ∀ a, RaisesIn E (f a)) :
    ∀ l : List α, RaisesIn E (l.mapM f)
  | [] => pure _
  | a :: l => by
    rw [List.mapM_cons]
    exact bind (hf a) fun _ => bind (mapM hf l) fun _ => pure _

theorem filterMapM {f : α → Except OlapError (Option β)} (hf : ∀ a, RaisesIn E (f a)) :
    ∀ l : List α, RaisesIn E (l.filterMapM f)
  | [] => pure _
  | a :: l => by
    rw [List.filterMapM_cons]
    refine bind (hf a) fun b => ?_
    cases b with
    | none => exact filterMapM hf l
    | some b => exact bind (filterMapM hf l) fun _ => pure _

theorem imp {E' : OlapError → Prop} {x : Except OlapError α} (h : RaisesIn E x)
    (hE : ∀ e, E e → E' e) : RaisesIn E' x :=
  fun e he => hE e (h e he)

theorem throw_bind {e : OlapError} {f : α → Except OlapError β} (h : E e) :
    RaisesIn E (MonadExcept.throw e >>= f) :=
  fun _ he => by cases he; exact h

end RaisesIn

/-! ## The errors of the basic operations -/

/-- The errors the basic operations of evaluation raise: a failed conversion or read of a value,
an unknown member, a division by zero, a refused backend read, the result limit, an interruption,
and the internal error of a value of the wrong kind. -/
def OlapError.Ordinary : OlapError → Prop
  | .eval _ | .unknownMember _ | .divisionByZero | .nullMember _ | .backend _ | .resourceLimit _
  | .cancelled | .timeout => True
  | .internal msg => ∃ rest, msg = "produced " ++ rest
  | _ => False

theorem OlapError.Ordinary.notCompile {e : OlapError} (h : e.Ordinary) : e.NotCompile := by
  cases e <;> simp_all [OlapError.Ordinary, OlapError.NotCompile, OlapError.kind]

section Ordinary

open OlapError

theorem Value.asMember_ordinary (v : Value) : RaisesIn Ordinary v.asMember := by
  cases v with
  | member m => exact RaisesIn.pure _
  | null => exact RaisesIn.throw (by trivial)
  | _ => exact RaisesIn.throw (by exact ⟨_, String.append_assoc ..⟩)

theorem Value.asTuple_ordinary (v : Value) : RaisesIn Ordinary v.asTuple := by
  cases v with
  | tuple t | member m => exact RaisesIn.pure _
  | null => exact RaisesIn.throw (by trivial)
  | _ => exact RaisesIn.throw (by exact ⟨_, String.append_assoc ..⟩)

theorem Value.toNumber_ordinary (v : Value) : RaisesIn Ordinary v.toNumber := by
  cases v with
  | null | integer _ | float _ | boolean _ => exact RaisesIn.pure _
  | string s =>
    -- a string is parsed, and one that is no number is an evaluation error
    simp only [Value.toNumber]
    split
    . exact RaisesIn.pure _
    . exact RaisesIn.throw trivial
  | _ => exact RaisesIn.throw (by trivial)

theorem Value.toInteger_ordinary (v : Value) : RaisesIn Ordinary v.toInteger := by
  unfold Value.toInteger
  split
  . exact RaisesIn.pure _
  . exact RaisesIn.bind (Value.toNumber_ordinary _) fun _ => RaisesIn.pure _

theorem Value.toBoolean_ordinary (v : Value) : RaisesIn Ordinary v.toBoolean := by
  cases v with
  | null | boolean _ | integer _ | float _ => exact RaisesIn.pure _
  | _ => exact RaisesIn.throw (by trivial)

theorem Value.toText_ordinary (v : Value) : RaisesIn Ordinary v.toText := by
  cases v with
  | null | string _ | boolean _ | integer _ | float _ | member _ => exact RaisesIn.pure _
  | _ => exact RaisesIn.throw (by trivial)

theorem ArithOp.apply_ordinary (op : ArithOp) (l r : Option Float) :
    RaisesIn Ordinary (op.apply l r) := by
  cases op with
  | div =>
    -- only a division by zero fails
    simp only [ArithOp.apply]
    split
    . split
      . exact RaisesIn.throw trivial
      . exact RaisesIn.pure _
    . exact RaisesIn.pure _
  | _ =>
    simp only [ArithOp.apply]
    split <;> exact RaisesIn.pure _

theorem compareValues_ordinary (op : CompareOp) (l r : Value) :
    RaisesIn Ordinary (compareValues op l r) := by
  have hnumeric : RaisesIn Ordinary (compareValues.numeric l r) :=
    RaisesIn.bind (Value.toNumber_ordinary l) fun _ => RaisesIn.bind (Value.toNumber_ordinary r)
      fun _ => by split <;> exact RaisesIn.pure _
  unfold compareValues
  split
  . exact RaisesIn.pure _
  dsimp only
  -- the ordering comes from the texts or the numbers; the verdict on it never fails
  split
  . exact RaisesIn.bind (RaisesIn.pure _) fun _ => by split <;> exact RaisesIn.pure _
  . split
    . exact RaisesIn.bind (Value.toText_ordinary _) fun _ =>
        RaisesIn.bind (RaisesIn.pure _) fun _ => by split <;> exact RaisesIn.pure _
    . exact RaisesIn.bind hnumeric fun _ => by split <;> exact RaisesIn.pure _
  . split
    . exact RaisesIn.bind (Value.toText_ordinary _) fun _ =>
        RaisesIn.bind (RaisesIn.pure _) fun _ => by split <;> exact RaisesIn.pure _
    . exact RaisesIn.bind hnumeric fun _ => by split <;> exact RaisesIn.pure _
  . exact RaisesIn.bind hnumeric fun _ => by split <;> exact RaisesIn.pure _

theorem Cube.levelMembers_ordinary (c : Cube) (l : LevelRef) :
    RaisesIn Ordinary (c.levelMembers l) := by
  unfold Cube.levelMembers
  split
  . exact RaisesIn.pure _
  . exact RaisesIn.throw trivial

theorem Cube.measureIndex_ordinary (c : Cube) (m : Member) :
    RaisesIn Ordinary (c.measureIndex m) := by
  unfold Cube.measureIndex
  split
  . exact RaisesIn.pure _
  . exact RaisesIn.throw trivial

theorem Cube.loadCell_ordinary (c : Cube) (coordinate : List Member) :
    RaisesIn Ordinary (c.loadCell coordinate) := by
  unfold Cube.loadCell
  split
  . -- a coordinate with a calculated member is refused, otherwise the measure is looked up
    dsimp only
    split
    . exact RaisesIn.throw_bind trivial
    . exact RaisesIn.bind (c.measureIndex_ordinary _) fun _ => RaisesIn.pure _
  . exact RaisesIn.throw trivial

theorem Cube.sourceMembers_ordinary (c : Cube) (s : MemberSource) :
    RaisesIn Ordinary (c.sourceMembers s) := by
  cases s with
  | level l => exact c.levelMembers_ordinary l
  | children m | members ms => exact RaisesIn.pure _

theorem Cube.tupleValue_ordinary (c : Cube) (facts : List Fact) (t : Tuple) (m : Member) :
    RaisesIn Ordinary (c.tupleValue facts t m) :=
  RaisesIn.bind (c.measureIndex_ordinary m) fun _ => RaisesIn.pure _

theorem Cube.execute_ordinary (c : Cube) (r : NativeRequest) :
    RaisesIn Ordinary (c.execute r) := by
  unfold Cube.execute
  -- the operands' members and the measures' places are read first
  refine RaisesIn.bind (RaisesIn.mapM (fun s => RaisesIn.bind (c.sourceMembers_ordinary s)
    fun _ => RaisesIn.pure _) _) fun _ => ?_
  refine RaisesIn.bind (RaisesIn.mapM c.measureIndex_ordinary _) fun _ => ?_
  dsimp only
  split
  . exact RaisesIn.pure _
  . exact RaisesIn.bind (RaisesIn.mapM (fun t => RaisesIn.bind (c.tupleValue_ordinary _ t _)
      fun _ => RaisesIn.pure _) _) fun _ => RaisesIn.pure _
  . exact RaisesIn.filterMapM (fun t => RaisesIn.bind (c.tupleValue_ordinary _ t _)
      fun _ => by split <;> exact RaisesIn.pure _) _

theorem Limiter.push_ordinary (l : Limiter) (t : Tuple) : RaisesIn Ordinary (l.push t) := by
  unfold Limiter.push
  split
  . exact RaisesIn.throw trivial
  . exact RaisesIn.pure _

theorem Limiter.ensureRoom_ordinary (l : Limiter) (n : Nat) :
    RaisesIn Ordinary (l.ensureRoom n) := by
  unfold Limiter.ensureRoom
  split
  . exact RaisesIn.throw trivial
  . exact RaisesIn.pure _

end Ordinary

/-! ## The operations evaluation runs that never compile -/

section NotCompile

open OlapError

theorem Value.asMember_notCompile (v : Value) : RaisesIn NotCompile v.asMember :=
  (Value.asMember_ordinary v).imp fun _ h => h.notCompile

theorem Value.asTuple_notCompile (v : Value) : RaisesIn NotCompile v.asTuple :=
  (Value.asTuple_ordinary v).imp fun _ h => h.notCompile

theorem Value.toNumber_notCompile (v : Value) : RaisesIn NotCompile v.toNumber :=
  (Value.toNumber_ordinary v).imp fun _ h => h.notCompile

theorem Value.toInteger_notCompile (v : Value) : RaisesIn NotCompile v.toInteger :=
  (Value.toInteger_ordinary v).imp fun _ h => h.notCompile

theorem Value.toBoolean_notCompile (v : Value) : RaisesIn NotCompile v.toBoolean :=
  (Value.toBoolean_ordinary v).imp fun _ h => h.notCompile

theorem Value.toText_notCompile (v : Value) : RaisesIn NotCompile v.toText :=
  (Value.toText_ordinary v).imp fun _ h => h.notCompile

theorem ArithOp.apply_notCompile (op : ArithOp) (l r : Option Float) :
    RaisesIn NotCompile (op.apply l r) :=
  (ArithOp.apply_ordinary op l r).imp fun _ h => h.notCompile

theorem compareValues_notCompile (op : CompareOp) (l r : Value) :
    RaisesIn NotCompile (compareValues op l r) :=
  (compareValues_ordinary op l r).imp fun _ h => h.notCompile

theorem Cube.levelMembers_notCompile (c : Cube) (l : LevelRef) :
    RaisesIn NotCompile (c.levelMembers l) :=
  (c.levelMembers_ordinary l).imp fun _ h => h.notCompile

theorem Cube.measureIndex_notCompile (c : Cube) (m : Member) :
    RaisesIn NotCompile (c.measureIndex m) :=
  (c.measureIndex_ordinary m).imp fun _ h => h.notCompile

theorem Cube.loadCell_notCompile (c : Cube) (coordinate : List Member) :
    RaisesIn NotCompile (c.loadCell coordinate) :=
  (c.loadCell_ordinary coordinate).imp fun _ h => h.notCompile

theorem Cube.sourceMembers_notCompile (c : Cube) (s : MemberSource) :
    RaisesIn NotCompile (c.sourceMembers s) :=
  (c.sourceMembers_ordinary s).imp fun _ h => h.notCompile

theorem Cube.execute_notCompile (c : Cube) (r : NativeRequest) :
    RaisesIn NotCompile (c.execute r) :=
  (c.execute_ordinary r).imp fun _ h => h.notCompile

theorem Limiter.push_notCompile (l : Limiter) (t : Tuple) : RaisesIn NotCompile (l.push t) :=
  (l.push_ordinary t).imp fun _ h => h.notCompile

theorem Limiter.ensureRoom_notCompile (l : Limiter) (n : Nat) :
    RaisesIn NotCompile (l.ensureRoom n) :=
  (l.ensureRoom_ordinary n).imp fun _ h => h.notCompile

end NotCompile

/-! ## Errors of evaluations -/

/-- Every error `x` can fail with, from any counts, satisfies `E`. -/
def Eval.Raises (E : OlapError → Prop) (x : Eval α) : Prop :=
  ∀ c e, (x.run.run c).1 = .error e → E e

namespace Eval.Raises

variable {E : OlapError → Prop}

theorem pure (a : α) : Eval.Raises E (Pure.pure a) := fun _ _ h => by cases h

theorem throw {e : OlapError} (h : E e) : Eval.Raises E (α := α) (MonadExcept.throw e) :=
  fun _ _ he => by cases he; exact h

theorem bind {x : Eval α} {f : α → Eval β} (hx : Eval.Raises E x) (hf : ∀ a, Eval.Raises E (f a)) :
    Eval.Raises E (x >>= f) := by
  intro c e h
  rw [EvalOn.run_bind] at h
  revert h
  rcases hr : x.run.run c with ⟨_ | a, c₁⟩
  . intro h
    cases h
    exact hx c _ (by rw [hr])
  . exact hf a c₁ e

theorem throw_bind {e : OlapError} {f : α → Eval β} (h : E e) :
    Eval.Raises E (MonadExcept.throw e >>= f) :=
  fun _ _ he => by cases he; exact h

theorem gets : Eval.Raises E (get : Eval Counters) := fun _ _ h => by cases h

theorem sets (c' : Counters) : Eval.Raises E (set c' : Eval PUnit) := fun _ _ h => by cases h

theorem modifies (f : Counters → Counters) : Eval.Raises E (modify f : Eval PUnit) :=
  fun _ _ h => by cases h

theorem lift {x : Except OlapError α} (h : RaisesIn E x) : Eval.Raises E (Eval.lift x) := by
  cases x with
  | ok a => exact pure a
  | error e => exact throw (h e rfl)

theorem imp {E' : OlapError → Prop} {x : Eval α} (h : Eval.Raises E x) (hE : ∀ e, E e → E' e) :
    Eval.Raises E' x :=
  fun c e he => hE e (h c e he)

end Eval.Raises

namespace Env

open OlapError

variable (env : Env)

/-- The cancellation and deadline check raises only the errors of an interruption. -/
theorem check_raises : Eval.Raises (fun e => e = .cancelled ∨ e = .timeout) env.check := by
  unfold Env.check
  dsimp only
  split
  . exact Eval.Raises.throw_bind (Or.inl rfl)
  . split
    . -- the deadline is checked once the tick is counted
      refine Eval.Raises.bind Eval.Raises.gets fun _ => Eval.Raises.bind (Eval.Raises.sets _) fun _ => ?_
      split
      . exact Eval.Raises.throw (Or.inr rfl)
      . exact Eval.Raises.pure _
    . exact Eval.Raises.pure _

theorem check_notCompile : Eval.Raises NotCompile env.check :=
  env.check_raises.imp fun _ h => by rcases h with rfl | rfl <;> simp [NotCompile, kind]

theorem loadCell_notCompile (ctx : Context) : Eval.Raises NotCompile (env.loadCell ctx) :=
  Eval.Raises.bind (Eval.Raises.modifies _) fun _ => Eval.Raises.lift (Cube.loadCell_notCompile _ _)

end Env

end OlapCalc
