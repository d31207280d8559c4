import OlapCalc.Eval.Core

/-!
Queries: axis sets, an optional slicer, and the cells of their cross product.

A query is compiled once (`FunctionTable.prepare`) and run against a cube on a fresh evaluator
(`Env.runQuery`). The slicer is evaluated first: no tuple means every cell is empty without
being evaluated, one tuple is placed on the context, and several tuples are rolled up by a
calculated member `Aggregate($Slicer())` on the first tuple's hierarchy. Each axis is evaluated
with its own non-empty mode; then every cell is evaluated, with axis 0 varying fastest, in a
scope of its own. `Env.queryAt` computes the same at a context passed down. A cell error is kept
in its cell; any other error fails the query. Axes marked non-empty finally lose the positions
whose cells are all empty.
-/

namespace OlapCalc

/-- One axis of a query: its set expression and whether empty positions are dropped. -/
structure AxisSpec where
  set : Exp
  nonEmpty : Bool := false

/-- A query before compilation. -/
structure QuerySpec where
  axes : List AxisSpec
  slicer : Option Exp := none

/-- A compiled query. -/
structure PreparedQuery where
  axes : List (SetArg × Bool)
  slicer : Option SetArg

/-- The content of one cell: a value, or the message of an error confined to the cell. -/
inductive CellValue where
  | value (v : Value)
  | error (message : String)
deriving Inhabited

namespace CellValue

/-- Whether the cell holds null. -/
def isEmpty : CellValue → Bool
  | .value .null => true
  | _ => false

/-- The cell as a number, when it holds a convertible value. -/
def asNumber : CellValue → Option Float
  | .value v =>
    match v.toNumber with
    | .ok x => x
    | .error _ => none
  | .error _ => none

end CellValue

/-- Axis positions and cells; axis 0 varies fastest in `cells`. -/
structure CellSet where
  axes : List (List Tuple)
  cells : List CellValue

/-- The positions, one per axis, of the cell at `offset`: axis 0 varies fastest. -/
def cellPositions (lengths : List Nat) (offset : Nat) : List Nat :=
  (lengths.foldl (fun (acc : List Nat × Nat) len => (acc.1 ++ [acc.2 % len], acc.2 / len))
    ([], offset)).1

/-- The offset of the cell at `positions`, or `none` when a position is out of range or the
number of positions is wrong. -/
def cellOffset (lengths positions : List Nat) : Option Nat :=
  if lengths.length != positions.length then none
  else
    let step := fun (acc : Option (Nat × Nat)) (entry : Nat × Nat) => do
      let (offset, stride) ← acc
      let (len, pos) := entry
      if pos ≥ len then none else some (offset + pos * stride, stride * len)
    ((lengths.zip positions).foldl step (some (0, 1))).map (·.1)

namespace CellSet

/-- The cell at the given axis positions. -/
def cell (cs : CellSet) (positions : List Nat) : Option CellValue := do
  let offset ← cellOffset (cs.axes.map List.length) positions
  cs.cells[offset]?

/-- Drops the positions of the axes flagged in `nonEmpty` whose cells are all empty; error
cells count as values. -/
def prune (cs : CellSet) (nonEmpty : List Bool) : CellSet :=
  let lengths := cs.axes.map List.length
  let start := (cs.axes.zip nonEmpty).map fun (axis, n) => axis.map fun _ => !n
  let mark := fun (keep : List (List Bool)) (entry : CellValue × Nat) =>
    if entry.1.isEmpty then keep
    else
      let positions := cellPositions lengths entry.2
      (keep.zip positions).map fun (flags, p) => flags.set p true
  let keep := (cs.cells.zip (List.range cs.cells.length)).foldl mark start
  let kept : List (List Nat) :=
    keep.map fun flags => (List.range flags.length).filter fun i => flags.getD i false
  let total := (kept.map List.length).foldr (· * ·) 1
  let cells := (List.range total).map fun offset =>
    let positions := cellPositions (kept.map List.length) offset
    let old := (kept.zip positions).map fun (ps, p) => ps.getD p 0
    match cellOffset lengths old with
    | some o => cs.cells.getD o default
    | none => default
  let axes := (cs.axes.zip kept).map fun (axis, ps) => ps.filterMap (axis[·]?)
  ⟨axes, cells⟩

end CellSet

/-- The calculated member that rolls a compound slicer up: `Aggregate($Slicer())` under
`root`. -/
def slicerMember (root : Member) : Member :=
  .calculated root "Slicer"
    (.call "Aggregate" .function [.call FunctionTable.slicerFunction .function []]) 0

namespace FunctionTable

/-- Compiles a query: every axis and the slicer as sets read by position. -/
def prepare (t : FunctionTable) (q : QuerySpec) : Except OlapError PreparedQuery := do
  let axes ← q.axes.mapM fun a => do pure (← t.compileSet a.set ResultStyle.randomAccess, a.nonEmpty)
  let slicer ← match q.slicer with
    | some e => some <$> t.compileSet e ResultStyle.randomAccess
    | none => pure none
  pure ⟨axes, slicer⟩

end FunctionTable

namespace Env

section Cells

variable {m : Type → Type} [Monad m] [MonadExceptOf OlapError m] [EvalMonad m]

/-- The axes and cells of a query at the current context: each axis under its own non-empty
mode, then every cell, axis 0 varying fastest, with its axis tuples placed on the context. When
`hasData` is false every cell is empty without being evaluated. -/
def queryCells (env : Env) (q : PreparedQuery) (hasData : Bool) : m CellSet := do
  let mut axisTuples : Array (List Tuple) := #[]
  for (set, nonEmpty) in q.axes do
    axisTuples := axisTuples.push (← within (.nonEmpty nonEmpty) (env.setValue set)).toList
  let axes := axisTuples.toList
  let lengths := axes.map List.length
  let total := lengths.foldr (· * ·) 1
  let mut cells : Array CellValue := #[]
  for offset in List.range total do
    if !hasData then
      cells := cells.push (.value .null)
    else
      let positions := cellPositions lengths offset
      let tuple := (axes.zip positions).flatMap fun (axis, p) => axis.getD p []
      let cell ← within (.tuple tuple) do
        tryCatch (do pure (CellValue.value (← env.cell))) fun e =>
          if e.isCellError then pure (.error e.message) else throw e
      cells := cells.push cell
  let cs : CellSet := ⟨axes, cells.toList⟩
  let flags := q.axes.map (·.2)
  pure (if flags.any id then cs.prune flags else cs)

end Cells

/-- The context placed on the slicer; `none` when the slicer is empty, so that every cell
is empty. -/
def applySlicer (env : Env) (ctx : Context) (slicer : SetArg) : Eval (Option Context) := do
  let tuples := (← (env.setValue slicer : EvalAt TupleSet).run ctx).toList
  match tuples with
  | [] => pure none
  | [t] => pure (some { ctx.setTuple t with slicer := tuples })
  | t :: _ =>
    match t with
    | [] => pure none
    | first :: _ =>
      let root := ((env.cube.hierarchy? first.hierarchy).map (·.defaultMember)).getD first
      pure (some { ctx.setMember (slicerMember root) with slicer := tuples })

/-- A compiled query from the default context, with every cell evaluated at the context its
axis tuples give. -/
def queryAt (env : Env) (q : PreparedQuery) : Eval CellSet := do
  let base := Context.initial env.cube
  let (ctx, hasData) ← match q.slicer with
    | some s => do
      match ← env.applySlicer base s with
      | some ctx => pure (ctx, true)
      | none => pure (base, false)
    | none => pure (base, true)
  (env.queryCells q hasData : EvalAt CellSet).run ctx

/-- Places the slicer on the evaluator; `false` when the slicer is empty, so that every cell
is empty. -/
def placeSlicer (env : Env) (slicer : SetArg) : EvalOn Bool := do
  let tuples := (← env.setValue slicer).toList
  match tuples with
  | [] => pure false
  | [t] =>
    EvalOn.change fun ev => (ev.setContextTuple t).setSlicer tuples
    pure true
  | t :: _ =>
    match t with
    | [] => pure false
    | first :: _ =>
      let root := ((env.cube.hierarchy? first.hierarchy).map (·.defaultMember)).getD first
      EvalOn.change fun ev => (ev.setContext (slicerMember root)).setSlicer tuples
      pure true

/-- A compiled query on the evaluator: the slicer placed first, then the axes and the cells. -/
def queryOn (env : Env) (q : PreparedQuery) : EvalOn CellSet := do
  let hasData ← match q.slicer with
    | some s => env.placeSlicer s
    | none => pure true
  env.queryCells q hasData

/-- Runs a compiled query on a fresh evaluator. -/
def runQuery (env : Env) (q : PreparedQuery) : Eval CellSet :=
  (env.queryOn q).runOn (Evaluator.new env.cube 0)

end Env

end OlapCalc
