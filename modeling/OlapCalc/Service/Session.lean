import OlapCalc.Service.Engine
import OlapCalc.Eval.Savepoint

/-!
Stateful requests: a sequence of steps against one evaluation context (`evaluator`) or against
one cube (`cube`).

An evaluator session drives one evaluator through its context calls and hands out the
savepoints it takes by index. An index can be restored once; restoring a savepoint that an outer
restore discarded, or another evaluator's, panics without changing anything. Evaluation steps
run on the evaluator's context and leave it as it was, whether they succeed or fail; the
cancellation counter carries over from step to step.

A cube session calls the cube directly and reports, after each step, the size of its member
lookup cache, its cell loads and its native executions.
-/

namespace OlapCalc.Service

/-- The state of an evaluator session. -/
structure EvaluatorState where
  ev : Evaluator
  /-- The savepoints handed out, by index. -/
  savepoints : List Savepoint := []
  /-- Indices already passed to a restore. -/
  used : List Nat := []
  counters : Counters := {}

/-- The panic text of a refused restore; the serial number of an out-of-order savepoint counts
internal scopes too, so it is left out. -/
def panicText : RestoreFailure → String
  | .foreign => RestoreFailure.foreign.message
  | .outOfOrder _ => "savepoint restored out of order or after an outer savepoint"

/-- The debug text of an evaluation context with its savepoint count. -/
def contextDebug (ctx : Context) (savepoints : Nat) : String :=
  "Evaluator \x7b coordinate: [" ++ ", ".intercalate (ctx.coordinate.map Member.uniqueName) ++
    "], non_empty: " ++ (if ctx.nonEmpty then "true" else "false") ++ ", slicer: " ++
    TupleSet.debugTuples ctx.slicer ++ ", savepoints: " ++ toString savepoints ++ " \x7d"

namespace EvaluatorState

/-- Takes a savepoint and hands out its index. -/
def mark (st : EvaluatorState) : EvaluatorState × Nat :=
  let (ev, sp) := st.ev.mark
  ({ st with ev := ev, savepoints := st.savepoints ++ [sp] }, st.savepoints.length)

/-- Restores the savepoint handed out under index `i`. An index is spent even when the restore
panics; an index never handed out, or spent, is refused before the evaluator sees it. -/
def restore (st : EvaluatorState) (i : Nat) : EvaluatorState × Option Failure :=
  match st.savepoints[i]? with
  | none => (st, some (.badInput ("savepoint " ++ toString i ++ " does not exist or was used")))
  | some sp =>
    if st.used.contains i then
      (st, some (.badInput ("savepoint " ++ toString i ++ " does not exist or was used")))
    else
      let st := { st with used := i :: st.used }
      match st.ev.restore sp with
      | .ok ev => ({ st with ev := ev }, none)
      | .error f => (st, some (.panic (panicText f)))

/-- A second evaluator takes a savepoint, and this one restores it. -/
def restoreForeign (st : EvaluatorState) : EvaluatorState × Option Failure :=
  let (_, sp) := (Evaluator.new default (st.ev.id + 1)).mark
  match st.ev.restore sp with
  | .ok ev => ({ st with ev := ev }, none)
  | .error f => (st, some (.panic (panicText f)))

end EvaluatorState

/-- A hierarchy id named by name or given as a number. -/
def hierarchyIdOf (cube : Cube) (j : Json) : Outcome Nat :=
  match j with
  | .int n => if n ≥ 0 then pure n.toNat else reject ("no hierarchy " ++ jsonText j)
  | _ => do pure (← hierarchyOf cube j).id

/-- Reads a list of tuples given as lists of member names. -/
def Setup.tuples (s : Setup) (items : List Json) : Outcome (List Tuple) :=
  items.mapM fun item =>
    match item with
    | .arr names => s.members names
    | other => reject ("bad tuple " ++ jsonText other)

/-- Runs one evaluator step: the new state, and the step's result or failure. -/
def evaluatorStep (s : Setup) (env : Env) (st : EvaluatorState) (step : Json) :
    EvaluatorState × Except Failure (Option Json) :=
  let evaluate := fun {α : Type} (m : EvalOn α) (encode : α → Json) =>
    let (result, ev, counters) := m.run.run (st.ev, st.counters)
    let st := { st with ev := ev, counters := counters }
    match result with
    | .ok a => (st, .ok (some (encode a)))
    | .error e => (st, .error (.engine e))
  let pureStep := fun (o : Outcome EvaluatorState) =>
    match o with
    | .ok st => (st, .ok none)
    | .error f => (st, .error f)
  let op :=
    match step.get? "do" with
    | some (.str s) => s
    | _ => ""
  match op with
  | "set" => pureStep do
    let m ← s.member (← stringField step "member")
    pure { st with ev := st.ev.setContext m }
  | "tuple" => pureStep do
    let ms ← s.members (← listField step "members")
    pure { st with ev := st.ev.setContextTuple ms }
  | "non_empty" => pureStep do
    pure { st with ev := st.ev.setNonEmpty (← flagField step "value") }
  | "slicer" => pureStep do
    let ts ← s.tuples (← listField step "tuples")
    pure { st with ev := st.ev.setSlicer ts }
  | "widen" => pureStep do
    let hs ← (← listField step "hierarchies").mapM (hierarchyIdOf s.scope.cube)
    pure { st with ev := st.ev.widenSlicer hs }
  | "mark" =>
    let (st, i) := st.mark
    (st, .ok (some (.obj [("savepoint", .int i)])))
  | "restore" =>
    match (step.get? "savepoint").bind Json.asNat? with
    | none => (st, .error (.badInput ("bad savepoint " ++ jsonText ((step.get? "savepoint").getD .null))))
    | some i =>
      match st.restore i with
      | (st, none) => (st, .ok none)
      | (st, some f) => (st, .error f)
  | "foreign" =>
    match st.restoreForeign with
    | (st, none) => (st, .ok none)
    | (st, some f) => (st, .error f)
  | "cell" => evaluate env.cell valueJson
  | "eval" =>
    let compiled : Outcome Node := do
      let e ← s.exp ((step.get? "exp").getD .null)
      engine (FunctionTable.builtins.compile e (← categoryOf step))
    match compiled with
    | .ok node => evaluate (env.value node) valueJson
    | .error f => (st, .error f)
  | "eval_set" =>
    let compiled : Outcome SetArg := do
      let e ← s.exp ((step.get? "exp").getD .null)
      engine (FunctionTable.builtins.compileSet e ResultStyle.randomAccess)
    match compiled with
    | .ok arg => evaluate (env.setValue arg) fun set => tuplesJson set.toList
    | .error f => (st, .error f)
  | "depth" => (st, .ok (some (.int st.ev.ctx.depth)))
  | "debug" => (st, .ok (some (.str (contextDebug st.ev.ctx st.ev.marks.length))))
  | "formula" =>
    let shape : Outcome Json := do
      let m ← s.member (← stringField step "member")
      let node ← engine (((env.formulaNode m).run.run {}).1)
      pure (.str node.shape.name)
    match shape with
    | .ok j => (st, .ok (some j))
    | .error f => (st, .error f)
  | other => (st, .error (.badInput ("unknown step " ++ other)))

/-- The state shown after each evaluator step. -/
def evaluatorView (st : EvaluatorState) (outcome : Except Failure (Option Json)) : Json :=
  let base : List (String × Json) := [("coord", namesJson st.ev.ctx.coordinate),
    ("non_empty", .bool st.ev.ctx.nonEmpty), ("slicer", tuplesJson st.ev.ctx.slicer),
    ("depth", .int st.ev.marks.length)]
  match outcome with
  | .ok none => .obj base
  | .ok (some r) => .obj (base ++ [("result", r)])
  | .error f => .obj (base ++ [("error", f.toJson)])

/-- `evaluator`: runs the steps against one evaluation context. -/
def evaluatorRequest (req : Json) : Outcome Json := do
  let s ← setupOf req
  let steps ← listField req "steps"
  let env := s.env FunctionTable.builtins false false
  let start : EvaluatorState := { ev := Evaluator.new s.scope.cube 0 }
  let run := fun (acc : EvaluatorState × List Json) (step : Json) =>
    let (st, outcome) := evaluatorStep s env acc.1 step
    (st, acc.2 ++ [evaluatorView st outcome])
  pure (.obj [("steps", .arr (steps.foldl run (start, [])).2)])

/-- The state of a cube session. -/
structure CubeState where
  cached : List String
  cellLoads : Nat := 0
  nativeExecutions : Nat := 0

/-- Reads a member source of a native request. -/
def sourceOf (s : Setup) (j : Json) : Reading MemberSource := do
  if let some l := j.get? "level" then pure (.level (← Reading.lift (levelOf s.scope.cube l)))
  else if let some l := j.get? "rawlevel" then pure (.level (← Reading.lift (rawLevelOf l)))
  else if let some (.str name) := j.get? "children" then pure (.children (← s.scope.member name))
  else if let some (.arr names) := j.get? "members" then
    pure (.members (← names.mapM fun n =>
      match n with
      | .str name => s.scope.member name
      | other => Reading.reject ("no member " ++ jsonText other)))
  else Reading.reject ("bad member source " ++ jsonText j)

/-- Reads member names through the session's cache. -/
def namesOf (s : Setup) (items : List Json) : Reading (List Member) :=
  items.mapM fun n =>
    match n with
    | .str name => s.scope.member name
    | other => Reading.reject ("no member " ++ jsonText other)

/-- Reads the operator of a native request. -/
def nativeOpOf (s : Setup) (j : Json) : Reading NativeOp := do
  match j with
  | .str "crossjoin" => pure .crossJoin
  | .obj _ =>
    if let some n := j.get? "topcount" then
      match n.asNat?, j.get? "measure" with
      | some n, some (.str m) => pure (.topCount n (← s.scope.member m))
      | _, _ => Reading.reject ("bad native operator " ++ jsonText j)
    else if let some (.str m) := j.get? "filter" then do
      let measure ← s.scope.member m
      let symbol ← match j.get? "cmp" with
        | some (.str c) => pure c
        | _ => Reading.reject ("bad native operator " ++ jsonText j)
      let some op := CompareOp.ofSymbol? symbol
        | Reading.reject ("unknown comparison " ++ symbol)
      let x ← Reading.lift (numberOf ((j.get? "value").getD .null))
      pure (.filter measure op x)
    else Reading.reject ("bad native operator " ++ jsonText j)
  | other => Reading.reject ("bad native operator " ++ jsonText other)

/-- Reads a native request. -/
def nativeRequestOf (s : Setup) (j : Json) : Reading NativeRequest := do
  let op ← nativeOpOf s ((j.get? "op").getD .null)
  let args ← (← Reading.lift (listField j "args")).mapM (sourceOf s)
  let constraint := (j.get? "constraint").getD (.obj [])
  let members ← namesOf s (← Reading.lift (listField constraint "members"))
  let slicer ← (← Reading.lift (listField constraint "slicer")).mapM fun anyOf =>
    match anyOf with
    | .arr names => namesOf s names
    | other => Reading.reject ("bad slicer " ++ jsonText other)
  let measures ← namesOf s (← Reading.lift (listField constraint "measures"))
  let nonEmpty ← Reading.lift (flagField j "non_empty")
  pure ⟨op, args, ⟨members, slicer, measures⟩, nonEmpty⟩

/-- The description of a request's member sources. -/
def sourcesJson (r : NativeRequest) : Json :=
  .arr (r.args.map fun src =>
    .obj [("display", .str src.render), ("hierarchy", optNat src.hierarchy?)])

/-- Feeds rows to a sink that fails when offered more than `limit` rows. -/
def sinkRows (limit : Option Nat) (rows : List Tuple) : List Tuple × Option OlapError :=
  match limit with
  | some n => if rows.length > n then (rows.take n, some (.resourceLimit n)) else (rows, none)
  | none => (rows, none)

/-- Runs one cube step: the new state, and the step's result or failure. -/
def cubeStep (s : Setup) (st : CubeState) (step : Json) : CubeState × Except Failure Json :=
  let cube := s.scope.cube
  let arg := (step.get? "arg").getD .null
  let reading := fun (r : Reading Json) =>
    match r.run st.cached with
    | .ok (j, cached) => ({ st with cached := cached }, .ok j)
    | .error f => (st, .error f)
  let op :=
    match step.get? "do" with
    | some (.str s) => s
    | _ => ""
  match op with
  | "lookup" =>
    match arg with
    | .str name => reading do
      match ← lookupInCube cube name with
      | some m => pure (.str m.uniqueName)
      | none => pure .null
    | other => (st, .error (.badInput ("no member " ++ jsonText other)))
  | "invalidate" =>
    match arg with
    | .str name => ({ st with cached := st.cached.filter (· != name) }, .ok .null)
    | other => (st, .error (.badInput ("no member " ++ jsonText other)))
  | "invalidate_all" => ({ st with cached := [] }, .ok .null)
  | "measures" => (st, .ok (namesJson cube.measures))
  | "measure" =>
    match arg with
    | .str name => (st, .ok ((cube.measureNamed? name).elim .null fun m => .str m.uniqueName))
    | other => (st, .error (.badInput ("bad measure " ++ jsonText other)))
  | "level" =>
    match arg with
    | .arr [.int h, .int d] =>
      if h ≥ 0 && d ≥ 0 then
        (st, .ok ((cube.level? h.toNat d.toNat).elim .null fun l => .str l.uniqueName))
      else (st, .ok .null)
    | other => (st, .error (.badInput ("bad level " ++ jsonText other)))
  | "level_members" | "cardinality" | "plain_cardinality" => reading do
    let level ← match arg.get? "level", arg.get? "rawlevel" with
      | some l, _ => Reading.lift (levelOf cube l)
      | none, some l => Reading.lift (rawLevelOf l)
      | none, none => Reading.reject ("bad level " ++ jsonText arg)
    if op == "level_members" then pure (resultJson namesJson (cube.levelMembers level))
    else pure (optNat (cube.levelCardinality? level))
  | "children" =>
    match arg with
    | .str name => reading do
      let m ← s.scope.member name
      pure (namesJson (cube.childrenOf m))
    | other => (st, .error (.badInput ("no member " ++ jsonText other)))
  | "load" =>
    match arg with
    | .arr items =>
      match (namesOf s items).run st.cached with
      | .ok (coordinate, cached) =>
        ({ st with cached := cached, cellLoads := st.cellLoads + 1 },
          .ok (resultJson valueJson (cube.loadCell coordinate)))
      | .error f => (st, .error f)
    | other => (st, .error (.badInput ("bad coordinate " ++ jsonText other)))
  | "native" | "plain_native" =>
    match (nativeRequestOf s arg).run st.cached with
    | .error f => (st, .error f)
    | .ok (request, cached) =>
      let st := { st with cached := cached }
      if op == "plain_native" || !cube.nativeEnabled then
        (st, .ok (.obj [("plan", .null), ("sources", sourcesJson request)]))
      else
        let st := { st with nativeExecutions := st.nativeExecutions + 1 }
        let limit := (step.get? "limit").bind Json.asNat?
        let (rows, failure) :=
          match cube.execute request with
          | .ok rows => sinkRows limit rows
          | .error e => ([], some e)
        (st, .ok (.obj [("plan", .str request.plan), ("same_request", .bool true),
          ("sources", sourcesJson request), ("tuples", tuplesJson rows),
          ("result", failure.elim .null errorJson)]))
  | other => (st, .error (.badInput ("unknown step " ++ other)))

/-- The state shown after each cube step. -/
def cubeView (st : CubeState) (outcome : Except Failure Json) : Json :=
  let base : List (String × Json) := [("cached", .int st.cached.length),
    ("cell_loads", .int st.cellLoads), ("native", .int st.nativeExecutions)]
  match outcome with
  | .ok r => .obj (base ++ [("result", r)])
  | .error f => .obj (base ++ [("error", f.toJson)])

/-- `cube`: runs the steps directly against the cube. -/
def cubeRequest (req : Json) : Outcome Json := do
  let s ← setupOf req
  let steps ← listField req "steps"
  let run := fun (acc : CubeState × List Json) (step : Json) =>
    let (st, outcome) := cubeStep s acc.1 step
    (st, acc.2 ++ [cubeView st outcome])
  pure (.obj [("steps", .arr (steps.foldl run (⟨s.cached, 0, 0⟩, [])).2)])

end OlapCalc.Service
