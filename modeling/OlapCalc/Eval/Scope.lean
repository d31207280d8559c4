import OlapCalc.Eval.Savepoint

/-!
Where the context of an evaluation lives.

An evaluation reads its context and runs nested evaluations under a changed one: an overlay (a
tuple placed on the coordinate, the non-empty flag set, the slicer widened), one calculated
member deeper, or with a native expression being resolved. The evaluator is written once over
`EvalMonad`, which has two instances.

`EvalOn` keeps the context in an `Evaluator` and changes it in place, as the engine does. An
overlay takes a savepoint, makes the evaluator's context calls and restores the savepoint
whichever way the nested evaluation ends; the nesting depth and the native expressions being
resolved are not journaled, and are raised before and lowered after it. `EvalAt` passes the
context down as a value, so that an override ends where the nested evaluation does; it is the
form the evaluator's properties are proved in.
-/

namespace OlapCalc

/-- A change of the context for the duration of a nested evaluation. -/
inductive Overlay where
  /-- Every member of the tuple placed on the coordinate. -/
  | tuple (t : Tuple)
  | nonEmpty (b : Bool)
  /-- The slicer's members of these hierarchies dropped. -/
  | widen (hierarchies : List Nat)

namespace Overlay

/-- The changed context. -/
def apply (ctx : Context) : Overlay → Context
  | .tuple t => ctx.setTuple t
  | .nonEmpty b => { ctx with nonEmpty := b }
  | .widen hs => ctx.widenSlicer hs

/-- The evaluator's context calls that make the change. -/
def enter (ev : Evaluator) : Overlay → Evaluator
  | .tuple t => ev.setContextTuple t
  | .nonEmpty b => ev.setNonEmpty b
  | .widen hs => ev.widenSlicer hs

end Overlay

namespace Evaluator

/-- One calculated member deeper. -/
def descend (ev : Evaluator) : Evaluator := { ev with ctx := { ev.ctx with depth := ev.ctx.depth + 1 } }

/-- Back from a calculated member. -/
def ascend (ev : Evaluator) : Evaluator := { ev with ctx := { ev.ctx with depth := ev.ctx.depth - 1 } }

/-- Registers a native expression as being resolved. -/
def enterNative (ev : Evaluator) (key : String) : Evaluator :=
  { ev with ctx := { ev.ctx with resolving := ev.ctx.resolving ++ [key] } }

/-- Drops the last registration of a native expression. -/
def leaveNative (ev : Evaluator) (key : String) : Evaluator :=
  { ev with ctx := { ev.ctx with resolving := (ev.ctx.resolving.reverse.erase key).reverse } }

end Evaluator

/-- Evaluations with a context that nested evaluations change for their own duration. -/
class EvalMonad (m : Type → Type) where
  /-- Runs an evaluation that does not read the context. -/
  liftEval {α : Type} : Eval α → m α
  context : m Context
  within {α : Type} : Overlay → m α → m α
  deeper {α : Type} : m α → m α
  resolving {α : Type} : String → m α → m α

export EvalMonad (liftEval context within deeper resolving)

/-- Fails with the error of a computation that failed. -/
def liftExcept {m : Type → Type} [Monad m] [MonadExceptOf OlapError m] {α : Type} :
    Except OlapError α → m α
  | .ok a => pure a
  | .error e => throw e

/-- Evaluation at a context passed down as a value. -/
abbrev EvalAt := ReaderT Context Eval

instance : EvalMonad EvalAt where
  liftEval x := fun _ => x
  context := read
  within o body := withReader (fun ctx => o.apply ctx) body
  deeper body := withReader (fun ctx => { ctx with depth := ctx.depth + 1 }) body
  resolving key body := withReader (fun ctx => { ctx with resolving := ctx.resolving ++ [key] }) body

/-- Evaluation on an evaluator whose context it changes in place; the evaluator and the counters
survive a failure. -/
abbrev EvalOn := ExceptT OlapError (StateM (Evaluator × Counters))

namespace EvalOn

variable {α : Type}

def liftEval (x : Eval α) : EvalOn α := ExceptT.mk fun (ev, c) =>
  let (r, c) := x.run.run c
  (r, (ev, c))

/-- Changes the evaluator for good. -/
def change (f : Evaluator → Evaluator) : EvalOn Unit := ExceptT.mk fun (ev, c) => (.ok (), (f ev, c))

/-- Runs `body` after `o`'s context calls, under a savepoint restored however the body ends; a
savepoint that cannot be restored aborts the evaluation. -/
def within (o : Overlay) (body : EvalOn α) : EvalOn α := ExceptT.mk fun (ev, c) =>
  let (marked, sp) := ev.mark
  let (r, ev, c) := body.run.run (o.enter marked, c)
  match ev.restore sp with
  | .ok ev => (r, (ev, c))
  | .error f => (.error (.internal f.message), (ev, c))

def deeper (body : EvalOn α) : EvalOn α := ExceptT.mk fun (ev, c) =>
  let (r, ev, c) := body.run.run (ev.descend, c)
  (r, (ev.ascend, c))

def resolving (key : String) (body : EvalOn α) : EvalOn α := ExceptT.mk fun (ev, c) =>
  let (r, ev, c) := body.run.run (ev.enterNative key, c)
  (r, (ev.leaveNative key, c))

/-- Runs on `ev` inside an evaluation that counts; the evaluator is dropped afterwards. -/
def runOn (body : EvalOn α) (ev : Evaluator) : Eval α := ExceptT.mk fun c =>
  let (r, _, c) := body.run.run (ev, c)
  (r, c)

end EvalOn

instance : EvalMonad EvalOn where
  liftEval := EvalOn.liftEval
  context := ExceptT.mk fun (ev, c) => (.ok ev.ctx, (ev, c))
  within := EvalOn.within
  deeper := EvalOn.deeper
  resolving := EvalOn.resolving

end OlapCalc
