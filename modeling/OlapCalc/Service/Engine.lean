import OlapCalc.Service.Request

/-!
The evaluating requests: a value (`eval`), a set (`set`) and a query (`query`).

Each runs one evaluation against the request's cube on a fresh evaluator: every hierarchy on
its default member, the request's context members placed on top. The answer reports the
compiled node's shape, the hierarchies it depends on and how many native requests the cube
executed.
-/

namespace OlapCalc.Service

/-- Runs an evaluation from fresh counters. -/
def runEval {α : Type} (m : Eval α) : Except OlapError α × Counters := (m.run.run {})

/-- The evaluation environment of a request. -/
def Setup.env (s : Setup) (functions : FunctionTable) (plain cancelled : Bool) : Env :=
  ⟨s.scope.cube, functions, s.config, plain, cancelled⟩

/-- The hierarchies a node depends on, by id. -/
def dependsJson (cube : Cube) (n : Node) : Json :=
  .arr (((List.range cube.hierarchies.length).filter (n.dependsOn ·)).map fun h => Json.int (Int.ofNat h))

/-- The category a request names; `value` when absent. -/
def categoryOf (req : Json) : Outcome Category :=
  match req.field? "category" with
  | none => pure .value
  | some (.str name) =>
    match Category.ofName? name with
    | some c => pure c
    | none => reject ("unknown category " ++ jsonText (.str name))
  | some other => reject ("unknown category " ++ jsonText other)

/-- A fresh evaluator with the request's context members placed on the default coordinate. -/
def evaluatorOf (s : Setup) (req : Json) : Outcome Evaluator := do
  let members ← s.members (← listField req "context")
  pure (members.foldl Evaluator.setContext (Evaluator.new s.scope.cube 0))

/-- Whether the request asks for the backend without native plans. -/
def plainBackend (req : Json) : Bool :=
  match req.get? "backend" with
  | some (.str "plain") => true
  | _ => false

/-- `eval`: compiles an expression to a category and evaluates it. -/
def evalRequest (req : Json) : Outcome Json := do
  let s ← setupOf req
  let e ← s.exp ((req.get? "exp").getD .null)
  let category ← categoryOf req
  let ev ← evaluatorOf s req
  let node ← engine (FunctionTable.builtins.compile e category)
  let env := s.env FunctionTable.builtins (plainBackend req) false
  let (result, counters) := runEval ((env.value node : EvalOn Value).runOn ev)
  let v ← engine result
  pure (.obj [("value", valueJson v), ("shape", .str node.shape.name),
    ("depends", dependsJson s.scope.cube node), ("native", .int counters.nativeExecutions)])

/-- The result styles a request accepts; by default those of a consumer reading by position. -/
def acceptsOf (req : Json) : Outcome (List ResultStyle) :=
  match req.field? "accepts" with
  | none => pure ResultStyle.randomAccess
  | some (.arr items) =>
    items.mapM fun item =>
      match item with
      | .str name =>
        match styleOfName? name with
        | some st => pure st
        | none => reject ("unknown result style " ++ jsonText item)
      | other => reject ("unknown result style " ++ jsonText other)
  | some other => reject ("accepts must be a list, got " ++ jsonText other)

/-- The result style a request names in a field. -/
def styleField? (req : Json) (key : String) : Outcome (Option ResultStyle) :=
  match req.field? key with
  | none => pure none
  | some (.str name) =>
    match styleOfName? name with
    | some st => pure (some st)
    | none => reject ("unknown result style " ++ jsonText (.str name))
  | some other => reject ("unknown result style " ++ jsonText other)

/-- How an inspected set is consumed. -/
inductive Consumption where
  | list
  | mutable
  | iter

/-- The consumption a request names; a list by default. -/
def consumptionOf (req : Json) : Outcome Consumption :=
  match req.field? "into" with
  | none | some (.str "list") => pure .list
  | some (.str "mutable") => pure .mutable
  | some (.str "iter") => pure .iter
  | some other => reject ("unknown consumption " ++ jsonText other)

/-- What inspecting a set reports: its representation, length and debug text, the same after
an optional conversion, and the lengths a one-pass reader sees. -/
def inspection (set : TupleSet) (adapt : Option ResultStyle) (into : Consumption) : Json :=
  let first : List (String × Json) := [("style", .str (styleName set.style)),
    ("len_hint", .int set.lenHint), ("debug", .str set.debug)]
  let (set, adapted) : TupleSet × List (String × Json) :=
    match adapt with
    | some st =>
      let a := set.adapt st
      (a, [("adapted_style", .str (styleName a.style)), ("adapted_len_hint", .int a.lenHint)])
    | none => (set, [])
  let hints : List (String × Json) :=
    match into with
    | .iter =>
      let n := set.lenHint
      [("size_hints", .arr ((List.range (n + 1)).reverse.map fun k => Json.arr [.int (Int.ofNat k), .int (Int.ofNat k)]))]
    | _ => []
  .obj (first ++ adapted ++ hints)

/-- `set`: compiles a set expression for the accepted styles and evaluates it. -/
def setRequest (req : Json) : Outcome Json := do
  let s ← setupOf req
  let e ← s.exp ((req.get? "exp").getD .null)
  let accepts ← acceptsOf req
  let inspect ← flagField req "inspect"
  let adapt ← styleField? req "adapt"
  let into ← consumptionOf req
  let ev ← evaluatorOf s req
  let arg ← engine (FunctionTable.builtins.compileSet e accepts)
  let env := s.env FunctionTable.builtins (plainBackend req) false
  let (result, counters) := runEval ((env.setValue arg : EvalOn TupleSet).runOn ev)
  let set ← engine result
  let node := arg.node
  let base : List (String × Json) := [("tuples", tuplesJson set.toList),
    ("style", .str (styleName arg.style)),
    ("produced", .arr (node.styles.map fun st => .str (styleName st))),
    ("shape", .str node.shape.name), ("depends", dependsJson s.scope.cube node),
    ("native", .int counters.nativeExecutions)]
  if inspect then pure (.obj (base ++ [("tupleset", inspection set adapt into)]))
  else pure (.obj base)

/-- A cell as an answer: its value, or its error message. -/
def cellJson : CellValue → Json
  | .value v => valueJson v
  | .error m => .obj [("cell_error", .str m)]

/-- A looked-up cell: absent, a value with its emptiness, or an error. -/
def lookupJson : Option CellValue → Json
  | none => .obj [("absent", .bool true)]
  | some (.value v) => .obj [("value", valueJson v), ("empty", .bool v.isNull)]
  | some (.error m) => .obj [("cell_error", .str m), ("empty", .bool false)]

/-- Reads one axis of a query. -/
def axisOf (s : Setup) (j : Json) : Outcome AxisSpec := do
  let e ← s.exp ((j.get? "set").getD .null)
  pure ⟨e, ← flagField j "non_empty"⟩

/-- The positions of a lookup. -/
def positionsOf (j : Json) : Outcome (List Nat) :=
  match j with
  | .arr items =>
    items.mapM fun item =>
      match item.asNat? with
      | some n => pure n
      | none => reject ("bad position " ++ jsonText item)
  | other => reject ("bad position " ++ jsonText other)

/-- `query`: compiles and runs a query; lookups read cells back by position. -/
def queryRequest (req : Json) : Outcome Json := do
  let s ← setupOf req
  let axes ← (← listField req "axes").mapM (axisOf s)
  let slicer ← match req.field? "slicer" with
    | none => pure none
    | some j => some <$> s.exp j
  let cancelled ← flagField req "cancel"
  let functions ← match req.field? "functions" with
    | some (.str "empty") => pure FunctionTable.empty
    | none | some (.str "builtins") => pure FunctionTable.builtins
    | some other => reject ("unknown functions " ++ jsonText other)
  let lookups ← match req.field? "lookup" with
    | none => pure none
    | some (.arr items) => some <$> items.mapM positionsOf
    | some other => reject ("lookup must be a list, got " ++ jsonText other)
  let prepared ← engine (functions.prepare ⟨axes, slicer⟩)
  let env := s.env functions (plainBackend req) cancelled
  let (result, counters) := runEval (env.runQuery prepared)
  let cs ← engine result
  let base : List (String × Json) := [("axes", .arr (cs.axes.map tuplesJson)), ("cells", .arr (cs.cells.map cellJson)),
    ("native", .int counters.nativeExecutions)]
  match lookups with
  | none => pure (.obj base)
  | some ls =>
    pure (.obj (base ++ [("lookup", .arr (ls.map fun p => lookupJson (cs.cell p))),
      ("numbers", .arr (cs.cells.map fun c => (c.asNumber.map floatJson).getD .null))]))

end OlapCalc.Service
