import OlapCalc.Eval.TupleSet
import OlapCalc.Node.Compile
import OlapCalc.Config.Basic

/-!
The evaluation context and the evaluation monad.

An evaluation reads a fixed environment (the cube, the function table for calculated members'
formulas, the configuration, whether native plans are available, whether the query was
cancelled) and a context that nested evaluations override: the current member of every
hierarchy, the non-empty flag, the slicer tuples, the calculated-member nesting depth and the
native expressions being resolved. The context is a plain value passed down, so an override
ends exactly where the nested evaluation does.

Evaluation counts in a state that survives errors: the cancellation checks (a zero timeout
trips on every 256th check, the first included), native executions and cell loads.
-/

namespace OlapCalc

/-- What an evaluation counts. -/
structure Counters where
  ticks : Nat := 0
  nativeExecutions : Nat := 0
  cellLoads : Nat := 0
deriving Inhabited

/-- Evaluation: may fail, and counts in a state kept on failure. -/
abbrev Eval := ExceptT OlapError (StateM Counters)

/-- Runs a computation that may fail inside an evaluation. -/
def Eval.lift {α : Type} : Except OlapError α → Eval α
  | .ok a => pure a
  | .error e => throw e

/-- What an evaluation reads and never changes. -/
structure Env where
  cube : Cube
  functions : FunctionTable
  config : EngineConfig
  /-- A backend without native plans. -/
  plain : Bool := false
  cancelled : Bool := false

/-- One member per hierarchy plus the modes nested evaluations override. -/
structure Context where
  coordinate : List Member
  nonEmpty : Bool := false
  slicer : List Tuple := []
  depth : Nat := 0
  /-- Native expressions whose context is being resolved. -/
  resolving : List String := []
deriving Inhabited

/-- Members of `hierarchies` removed from every tuple; tuples left empty and duplicates made by
the removal are dropped. -/
def projectOut (tuples : List Tuple) (hierarchies : List Nat) : List Tuple :=
  let step := fun (acc : List Tuple) (t : Tuple) =>
    let kept := t.filter fun m => !hierarchies.contains m.hierarchy
    if kept.isEmpty || acc.contains kept then acc else acc ++ [kept]
  tuples.foldl step []

namespace Context

/-- Every hierarchy on its default member. -/
def initial (cube : Cube) : Context := ⟨cube.hierarchies.map (·.defaultMember), false, [], 0, []⟩

/-- The current member of hierarchy `h`. -/
def current? (ctx : Context) (h : Nat) : Option Member := ctx.coordinate[h]?

/-- Places a member on the coordinate. A member equal to the current one (by unique name) leaves
the coordinate as it is, so the current member object stays. -/
def setMember (ctx : Context) (m : Member) : Context :=
  if ctx.coordinate[m.hierarchy]? == some m then ctx
  else { ctx with coordinate := ctx.coordinate.set m.hierarchy m }

/-- Places every member of a tuple on the coordinate. -/
def setTuple (ctx : Context) (t : Tuple) : Context := t.foldl setMember ctx

/-- Drops the slicer's constraints on `hierarchies`, for operators that vary them. -/
def widenSlicer (ctx : Context) (hierarchies : List Nat) : Context :=
  if ctx.slicer.any (·.any fun m => hierarchies.contains m.hierarchy) then
    { ctx with slicer := projectOut ctx.slicer hierarchies }
  else ctx

/-- The calculated member that decides the cell: the highest solve order, measures first among
equals, the earliest hierarchy otherwise. -/
def leadingCalculated (ctx : Context) : Option Member :=
  let step := fun (best : Option (Member × Int)) (m : Member) =>
    match m.formula with
    | none => best
    | some (_, order) =>
      match best with
      | none => some (m, order)
      | some (current, currentOrder) =>
        if order > currentOrder || (order == currentOrder && m.isMeasure && !current.isMeasure)
        then some (m, order)
        else best
  (ctx.coordinate.foldl step none).map (·.1)

end Context

namespace Env

/-- The cancellation and deadline check made once per tuple. -/
def check (env : Env) : Eval Unit := do
  if env.cancelled then throw .cancelled
  if env.config.queryTimeoutMs.isSome then
    let counters ← get
    set { counters with ticks := counters.ticks + 1 }
    if env.config.expiresAtOnce && counters.ticks % 256 == 0 then throw .timeout

/-- Loads the cell at the context's coordinate from the cube. -/
def loadCell (env : Env) (ctx : Context) : Eval Value := do
  modify fun c => { c with cellLoads := c.cellLoads + 1 }
  Eval.lift (env.cube.loadCell ctx.coordinate)

/-- The compiled formula of a calculated member. -/
def formulaNode (env : Env) (m : Member) : Eval Node :=
  match m.formula with
  | some (e, _) => Eval.lift (env.functions.compile e .value)
  | none => throw (.internal (m.uniqueName ++ " is not a calculated member"))

/-- The number of members of a level, when the level exists. -/
def levelCardinality? (env : Env) (l : LevelRef) : Option Nat := env.cube.levelCardinality? l

/-- The current measure: the current member of the measures hierarchy. -/
def currentMeasure? (env : Env) (ctx : Context) : Option Member :=
  env.cube.measuresHierarchy?.bind ctx.current?

end Env

/-- A list of tuples growing under the result limit (`0` is no limit). -/
structure Limiter where
  limit : Nat
  tuples : Array Tuple := #[]

namespace Limiter

/-- Whether `count` tuples break the limit. -/
def exceeded (l : Limiter) (count : Nat) : Bool := l.limit != 0 && count > l.limit

/-- Appends a tuple, failing when the limit would be broken. -/
def push (l : Limiter) (t : Tuple) : Except OlapError Limiter :=
  if l.exceeded (l.tuples.size + 1) then throw (.resourceLimit l.limit)
  else pure { l with tuples := l.tuples.push t }

/-- Fails when `additional` more tuples would break the limit. -/
def ensureRoom (l : Limiter) (additional : Nat) : Except OlapError Unit :=
  if l.exceeded (l.tuples.size + additional) then throw (.resourceLimit l.limit) else pure ()

end Limiter

/-- The sort rank of an `Order` key: null, numbers, strings, everything else. -/
def Value.keyRank : Value → Nat
  | .null => 0
  | .integer _ | .float _ => 1
  | .string _ => 2
  | _ => 3

/-- The order of `Order` keys: null first, then numbers in total order, then strings by bytes,
then the rest (booleans ordered among themselves). -/
def compareKeys (a b : Value) : Ordering :=
  match a, b with
  | .string x, .string y => compare x y
  | .boolean x, .boolean y => compare x y
  | .integer x, .integer y => Binary64.totalCompare (Binary64.ofInt x) (Binary64.ofInt y)
  | .integer x, .float y => Binary64.totalCompare (Binary64.ofInt x) y
  | .float x, .integer y => Binary64.totalCompare x (Binary64.ofInt y)
  | .float x, .float y => Binary64.totalCompare x y
  | _, _ => compare a.keyRank b.keyRank

/-- The value of a member-valued node. -/
def Value.asMember : Value → Except OlapError Member
  | .member m => pure m
  | .null => throw (.nullMember "")
  | other => throw (.internal ("produced " ++ other.typeName ++ " where a member was expected"))

/-- The value of a tuple-valued node; a member is a tuple of one. -/
def Value.asTuple : Value → Except OlapError Tuple
  | .tuple t => pure t
  | .member m => pure [m]
  | .null => throw (.nullMember "")
  | other => throw (.internal ("produced " ++ other.typeName ++ " where a tuple was expected"))

end OlapCalc
