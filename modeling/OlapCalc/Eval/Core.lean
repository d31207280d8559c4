import OlapCalc.Eval.Scope
import OlapCalc.Native.Formula

/-!
Evaluation of compiled nodes.

`cellValue` reads the cell at the context's coordinate: the formula of the leading calculated
member, or the cube's stored data. `eval` computes a node's value and `evalSet` a set node in a
negotiated representation. Set operators first try their native site (`dispatch`): when the
site's plan applies in the current context the cube computes the set in one request, and the
calculated members of the operands are merged in afterwards; otherwise the operator runs tuple
by tuple. Every tuple visited by a loop passes the cancellation check first.

The evaluator is written over any `EvalMonad`: it reads the context where it needs it and runs
nested evaluations under overlays, one scope per tuple visited, as the engine does. It runs on
an evaluator (`EvalOn`); its properties are proved at a context passed down (`EvalAt`).

All functions recurse on an explicit fuel argument that bounds the nesting of evaluations; it
is never the limiting factor in practice (`evalFuel`), and running out is an internal error.
-/

namespace OlapCalc

/-- The nesting bound of one evaluation. -/
def evalFuel : Nat := 100000

/-- The error when the nesting bound is reached. -/
def fuelExhausted : OlapError := .internal "evaluation nested too deeply"

/-- A machine-sized count read as a signed 64-bit integer, wrapping around. -/
def wrapInt64 (n : Nat) : Int := if n ≥ Nat.pow 2 63 then (n : Int) - Int.pow 2 64 else n

/-- The statistic a regression node reports from a fit. -/
def RegressionStat.read (stat : RegressionStat) (fit : Stats.LinearFit Float) (x : Option Float) :
    Option Float :=
  match stat with
  | .slope => some fit.slope
  | .intercept => some fit.intercept
  | .r2 => fit.r2
  | .variance => fit.variance
  | .point => x.map fit.point

/-- Rolls values up with a stored measure's aggregator; counts are summed. -/
def Aggregator.rollValues (agg : Aggregator) (values : List Float) : Float :=
  match agg with
  | .sum | .count => Stats.sum values
  | .min => values.foldl Binary64.fmin Binary64.infinity
  | .max => values.foldl Binary64.fmax Binary64.negInfinity

namespace Env

/-- The number of stored members a native operand ranges over: unknown level sizes count as
the largest count. -/
def storedCardinality (env : Env) (s : ArgSource) : Nat :=
  match s.stored with
  | some (.level l) => (env.levelCardinality? l).getD countLimit
  | some (.children m) => (env.cube.childrenOf m).length
  | some (.members ms) => ms.length
  | none => 0

/-- The number of members a native operand ranges over: its stored members and its calculated
ones, saturating at the largest count. -/
def sourceCardinality (env : Env) (s : ArgSource) : Nat :=
  min (env.storedCardinality s + s.calculated.length) countLimit

/-- The estimated number of tuples of a native request. -/
def estimate (env : Env) (sources : List ArgSource) : Nat :=
  sources.foldl (fun acc s => saturatingMul acc (env.sourceCardinality s)) 1

/-- Whether the operand of a top count or filter drops empty tuples in this context. -/
def operandNonEmpty (ctx : Context) : OperandKind → Bool
  | .simple => false
  | .crossJoin => ctx.nonEmpty
  | .nonEmptyCrossJoin => true

/-- The checks of a native plan that need no evaluation: the operator is enabled, the operands
are stored members of plain dimension hierarchies, the estimate passes the threshold unless the
operator has no other implementation, and a top count has a stored measure to rank by. Gives
the request's operator and whether the request drops empty tuples. -/
def nativeOp (env : Env) (ctx : Context) (plan : NativePlan) (required nonEmpty : Bool) :
    Except String (NativeOp × Bool) := do
  let c := env.config
  let enabled :=
    match plan.template with
    | .crossJoin => c.enableNativeCrossJoin
    | .topCount .. => c.enableNativeTopCount
    | .filter .. => c.enableNativeFilter
  if !enabled then throw "native evaluation is disabled for this operator"
  for s in plan.sources do
    match env.cube.hierarchy? s.hierarchy with
    | none => throw ("unknown hierarchy HierarchyId(" ++ toString s.hierarchy ++ ")")
    | some h =>
      if h.isMeasures then throw "measures cannot be a native operand"
      if h.isRagged then
        throw ("hierarchy [" ++ h.name ++ "] is ragged; its levels are not single predicates")
  if plan.sources.any (·.stored.isNone) then throw "an operand has no stored members"
  if !required then
    let e := env.estimate plan.sources
    if e ≤ c.nativeMinThreshold then
      throw ("estimated cardinality " ++ toString e ++ " does not exceed the threshold of " ++
        toString c.nativeMinThreshold)
  match plan.template with
  | .crossJoin => pure (.crossJoin, nonEmpty)
  | .topCount count measure operand =>
    let current := (env.currentMeasure? ctx).filter (·.isStoredMeasure)
    match measure <|> current with
    | some measure => pure (.topCount count measure, operandNonEmpty ctx operand)
    | none => throw "the current measure is not a stored measure"
  | .filter measure op x operand => pure (.filter measure op x, operandNonEmpty ctx operand)

section Evaluator

variable {m : Type → Type} [Monad m] [MonadExceptOf OlapError m] [EvalMonad m]

/-- Passes the tuples of a sequence that `drop` does not reject through a result limiter,
checking for cancellation before each one. -/
def keepLimited (env : Env) (limiter : Limiter) (tuples : TupleStream) (drop : Tuple → m Bool) :
    m Limiter := do
  let mut limiter := limiter
  for t in tuples do
    liftEval env.check
    if !(← drop t) then limiter ← liftExcept (limiter.push t)
  pure limiter

/-- The tuples of the sets `each` gives for the tuples of `source`, in order and, unless `all`,
without repeats, through a result limiter; cancellation is checked before each source tuple. -/
def generateLimited (env : Env) (limiter : Limiter) (source : TupleSet)
    (each : Tuple → m TupleSet) (all : Bool) : m Limiter := do
  let mut limiter := limiter
  let mut seen : List Tuple := []
  for t in source.stream do
    liftEval env.check
    let generated := (← each t).toList
    for item in generated do
      if all then limiter ← liftExcept (limiter.push item)
      else if !seen.contains item then
        seen := item :: seen
        limiter ← liftExcept (limiter.push item)
  pure limiter

mutual

/-- The value of the cell at the context's coordinate. -/
def cellValue (env : Env) : Nat → m Value
  | 0 => throw fuelExhausted
  | fuel + 1 => do
    liftEval env.check
    let ctx ← context
    match ctx.leadingCalculated with
    | none => liftEval (env.loadCell ctx)
    | some member =>
      if ctx.depth ≥ env.config.maxEvalDepth then
        throw (.eval ("infinite recursion detected while evaluating calculated member " ++
          member.uniqueName))
      else
        let node ← liftEval (env.formulaNode member)
        deeper (eval env fuel node)

/-- Whether the cell at the context's coordinate is empty; a cell error counts as a value. -/
def isEmptyCell (env : Env) : Nat → m Bool
  | 0 => throw fuelExhausted
  | fuel + 1 =>
    tryCatch (do pure (← cellValue env fuel).isNull) fun e =>
      if e.isCellError then pure false else throw e

/-- The value of a node. -/
def eval (env : Env) : Nat → Node → m Value
  | 0, _ => throw fuelExhausted
  | fuel + 1, node =>
    match node with
    | .const v _ => pure v
    | .memberConst member => pure (.member member)
    | .currentMember h => do pure (((← context).current? h).elim .null .member)
    | .parent n => do
      let member ← liftExcept (← eval env fuel n).asMember
      pure (member.parent.elim .null .member)
    | .memberName n => do
      let member ← liftExcept (← eval env fuel n).asMember
      pure (.string member.name)
    | .tuple ns => do
      let mut members : Array Member := #[]
      for n in ns do
        let member ← liftExcept (← eval env fuel n).asMember
        if members.any (·.hierarchy == member.hierarchy) then
          throw (.eval ("tuple contains more than one member of the hierarchy of " ++
            member.uniqueName))
        members := members.push member
      pure (.tuple members.toList)
    | .memberToTuple n => do
      let member ← liftExcept (← eval env fuel n).asMember
      pure (.tuple [member])
    | .arith op l r => do
      let a ← liftExcept (← eval env fuel l).toNumber
      if op == .mul && a.isNone then pure .null
      else
        let b ← liftExcept (← eval env fuel r).toNumber
        pure (Value.ofOptFloat (← liftExcept (op.apply a b)))
    | .negate n => do
      let a ← liftExcept (← eval env fuel n).toNumber
      pure (Value.ofOptFloat (a.map (- ·)))
    | .compare op l r => do
      let a ← eval env fuel l
      let b ← eval env fuel r
      liftExcept (compareValues op a b)
    | .logical conjunction l r => do
      let a := (← liftExcept (← eval env fuel l).toBoolean).getD false
      if conjunction != a then pure (.boolean a)
      else pure (.boolean ((← liftExcept (← eval env fuel r).toBoolean).getD false))
    | .not n => do
      pure (.boolean !((← liftExcept (← eval env fuel n).toBoolean).getD false))
    | .iif c t e _ => do
      if (← liftExcept (← eval env fuel c).toBoolean).getD false then eval env fuel t
      else eval env fuel e
    | .isEmpty n => do pure (.boolean (← eval env fuel n).isNull)
    | .coalesce ns _ => do
      for n in ns do
        let v ← eval env fuel n
        if !v.isNull then return v
      pure .null
    | .format v f => do pure (.string (f.format (← eval env fuel v)))
    | .formatWith v p => do
      let value ← eval env fuel v
      let pattern := (← liftExcept (← eval env fuel p).toText).getD ""
      pure (.string ((Formatter.ofPattern pattern).format value))
    | .coerce n target => do
      let v ← eval env fuel n
      match target with
      | .numeric => pure (Value.ofOptFloat (← liftExcept v.toNumber))
      | .integer => pure ((← liftExcept v.toInteger).elim .null .integer)
      | .boolean => pure ((← liftExcept v.toBoolean).elim .null .boolean)
      | .string => pure ((← liftExcept v.toText).elim .null .string)
      | _ => pure v
    | .truncate n => do
      let a ← liftExcept (← eval env fuel n).toNumber
      pure (a.elim .null fun x => .integer (Binary64.toInt64 x))
    | .toText n => do pure ((← liftExcept (← eval env fuel n).toText).elim .null .string)
    | .memberValue t => do
      let tuple ← liftExcept (← eval env fuel t).asTuple
      within (.tuple tuple) (cellValue env fuel)
    | .slicer _ => do pure (.set (← context).slicer)
    | .sum set v => do
      let (values, visited) ← collect env fuel set v
      if visited == 0 then pure (.float Binary64.zero)
      else if values.isEmpty then pure .null
      else pure (.float (Stats.sum values))
    | .avg set v => do
      let (values, _) ← collect env fuel set v
      pure (Value.ofOptFloat (Stats.mean values))
    | .extremum set v max => do
      let (values, _) ← collect env fuel set v
      match values with
      | [] => pure .null
      | first :: rest =>
        pure (.float (rest.foldl (if max then Binary64.fmax else Binary64.fmin) first))
    | .percentile set v p => do
      let share ← match p with
        | none => pure (some (Binary64.ofDecimal false 5 (-1)))
        | some p => do
          let pct ← liftExcept (← eval env fuel p).toNumber
          pure (pct.map (· / Binary64.ofNat 100))
      match share with
      | none => pure .null
      | some share =>
        let (values, _) ← collect env fuel set v
        pure (Value.ofOptFloat (Stats.percentile values share))
    | .dispersion set v kind root => do
      let (values, _) ← collect env fuel set v
      pure (Value.ofOptFloat
        (if root then Stats.stdev values kind else Stats.variance values kind))
    | .regression stat point set y x => do
      let forecast ← match point with
        | none => pure (some none)
        | some p => do
          match ← liftExcept (← eval env fuel p).toNumber with
          | none => pure none
          | some xv => pure (some (some xv))
      match forecast with
      | none => pure .null
      | some forecastX =>
        let (xs, ys) ← collectPairs env fuel set (some y) x
        match Stats.linearRegression xs ys with
        | none => pure .null
        | some fit => pure (Value.ofOptFloat (stat.read fit forecastX))
    | .pairwise stat set x y => do
      let (xs, ys) ← collectPairs env fuel set y (some x)
      match stat with
      | .covariance kind => pure (Value.ofOptFloat (Stats.covariance xs ys kind))
      | .correlation => pure (Value.ofOptFloat (Stats.correlation xs ys))
    | .count set exclude => do
      if !exclude then
        let s ← within (.nonEmpty false) (evalArg env fuel set)
        pure (.integer (wrapInt64 s.lenHint))
      else
        within (.nonEmpty false) do
          let s ← evalArg env fuel set
          let mut n : Nat := 0
          for t in s.stream do
            liftEval env.check
            if !(← within (.tuple t) (isEmptyCell env fuel)) then n := n + 1
          pure (.integer n)
    | .aggregate set v => do
      let agg := ((env.currentMeasure? (← context)).bind (·.aggregator)).getD .sum
      let (values, _) ← collect env fuel set v
      if values.isEmpty then pure .null else pure (.float (agg.rollValues values))
    | set => do
      let s ← evalSet env fuel set .list
      pure (.set s.toList)

/-- The numbers of `value` (or of the cell) over the tuples of a set, nulls skipped, and the
number of tuples visited. The set is evaluated, and the tuples visited, with the non-empty mode
off. -/
def collect (env : Env) : Nat → SetArg → Option Node → m (List Float × Nat)
  | 0, _, _ => throw fuelExhausted
  | fuel + 1, set, value => within (.nonEmpty false) do
    let s ← evalArg env fuel set
    let mut values : Array Float := #[]
    let mut visited : Nat := 0
    for t in s.stream do
      liftEval env.check
      visited := visited + 1
      let v ← within (.tuple t) do
        match value with
        | some n => liftExcept (← eval env fuel n).toNumber
        | none => liftExcept (← cellValue env fuel).toNumber
      if let some v := v then values := values.push v
    pure (values.toList, visited)

/-- The `(x, y)` pairs over the tuples of a set where both are numbers. Without `y` the cell
is read; without `x` it is the tuple's 1-based position. -/
def collectPairs (env : Env) : Nat → SetArg → Option Node → Option Node →
    m (List Float × List Float)
  | 0, _, _, _ => throw fuelExhausted
  | fuel + 1, set, y, x => within (.nonEmpty false) do
    let s ← evalArg env fuel set
    let mut xs : Array Float := #[]
    let mut ys : Array Float := #[]
    let mut position : Nat := 0
    for t in s.stream do
      liftEval env.check
      position := position + 1
      let (xv, yv) ← within (.tuple t) do
        let yv ← match y with
          | some n => do liftExcept (← eval env fuel n).toNumber
          | none => do liftExcept (← cellValue env fuel).toNumber
        let xv ← match x with
          | some n => do liftExcept (← eval env fuel n).toNumber
          | none => pure (some (Binary64.ofNat position))
        pure (xv, yv)
      if let (some a, some b) := (xv, yv) then
        xs := xs.push a
        ys := ys.push b
    pure (xs.toList, ys.toList)

/-- A set operand in its negotiated representation. -/
def evalArg (env : Env) : Nat → SetArg → m TupleSet
  | 0, _ => throw fuelExhausted
  | fuel + 1, .mk n style => do pure ((← evalSet env fuel n style).adapt style)

/-- A set node's tuples in the representation `style`. -/
def evalSet (env : Env) : Nat → Node → ResultStyle → m TupleSet
  | 0, _, _ => throw fuelExhausted
  | fuel + 1, node, style =>
    match node with
    | .levelMembers l => do
      let ms ← liftExcept (env.cube.levelMembers l)
      pure (TupleSet.deliver (ms.map ([·])) style)
    | .children n => do
      match ← eval env fuel n with
      | .member member => pure (TupleSet.deliver ((env.cube.childrenOf member).map ([·])) style)
      | .null => pure (TupleSet.deliver [] style)
      | other => throw (.internal ("children of a " ++ other.typeName))
    | .enumerate items _ => do
      let mut tuples : Array Tuple := #[]
      for item in items do
        match item with
        | .single n =>
          match ← eval env fuel n with
          | .null => pure ()
          | .member member => tuples := tuples.push [member]
          | .tuple t => tuples := tuples.push t
          | other => throw (.internal ("set item evaluated to a " ++ other.typeName))
        | .splice a =>
          let s ← evalArg env fuel a
          for t in s.stream do
            tuples := tuples.push t
      pure (TupleSet.deliver tuples.toList style)
    | .singleton n => do
      match ← eval env fuel n with
      | .null => pure (TupleSet.deliver [] style)
      | .member member => pure (TupleSet.deliver [[member]] style)
      | .tuple t => pure (TupleSet.deliver [t] style)
      | other => throw (.internal ("singleton set of a " ++ other.typeName))
    | .slicer _ => do pure ((TupleSet.list (← context).slicer).adapt style)
    | .crossJoin args site force => do
      let nonEmpty := force || (← context).nonEmpty
      match ← dispatch env fuel site nonEmpty with
      | some ts => pure (TupleSet.deliver ts style)
      | none =>
        let mut lists : Array (List Tuple) := #[]
        for a in args do
          lists := lists.push (← evalArg env fuel a).toList
        let varied := lists.toList.flatMap fun l =>
          match l with
          | t :: _ => t.map (·.hierarchy)
          | [] => []
        let product : TupleStream := .product lists.toList
        if !nonEmpty then
          if env.config.exceedsResultLimit product.reportedSize then
            throw (.resourceLimit env.config.resultLimit)
          if style == .iterable then pure (.iterable product)
          else
            let mut tuples : Array Tuple := #[]
            for t in product do
              liftEval env.check
              tuples := tuples.push t
            pure (TupleSet.deliver tuples.toList style)
        else
          -- the slicer stops constraining the hierarchies the product varies
          within (.widen varied) do
            let limiter ← env.keepLimited ⟨env.config.resultLimit, #[]⟩ product fun t =>
              within (.tuple t) (isEmptyCell env fuel)
            pure (TupleSet.deliver limiter.tuples.toList style)
    | .filter set condition site => do
      match ← dispatch env fuel site false with
      | some ts => pure (TupleSet.deliver ts style)
      | none =>
        let s ← evalArg env fuel set
        let mut kept : Array Tuple := #[]
        for t in s.stream do
          liftEval env.check
          if ← within (.tuple t) do
              pure ((← liftExcept (← eval env fuel condition).toBoolean).getD false) then
            kept := kept.push t
        pure (TupleSet.deliver kept.toList style)
    | .topCount set count measure site top => do
      let delegated ← match site with
        | some site => dispatch env fuel site false
        | none => pure none
      match delegated with
      | some ts => pure (TupleSet.deliver ts style)
      | none =>
        let k := ((← liftExcept (← eval env fuel count).toInteger).getD 0).toNat
        let tuples := (← evalArg env fuel set).toList
        match measure with
        | none => pure (TupleSet.deliver (tuples.take k) style)
        | some measure =>
          let mut keyed : Array (Option Float × Tuple) := #[]
          for t in tuples do
            liftEval env.check
            let key ← within (.tuple t) do liftExcept (← eval env fuel measure).toNumber
            keyed := keyed.push (key, t)
          let sorted :=
            if top then keyed.toList.mergeSort fun a b => rankKeyLe b.1 a.1
            else keyed.toList.mergeSort fun a b => rankKeyLe a.1 b.1
          pure (TupleSet.deliver ((sorted.take k).map (·.2)) style)
    | .head set count => do
      let k ← match count with
        | some c => do pure ((← liftExcept (← eval env fuel c).toInteger).getD 0).toNat
        | none => pure 1
      let s ← evalArg env fuel set
      let taken : TupleStream := .take k s.stream
      if style == .iterable then pure (.iterable taken)
      else pure (TupleSet.deliver taken.collect style)
    | .order set key descending => do
      let tuples := (← evalArg env fuel set).toList
      let mut keyed : Array (Value × Tuple) := #[]
      for t in tuples do
        liftEval env.check
        keyed := keyed.push (← within (.tuple t) (eval env fuel key), t)
      let sorted :=
        if descending then keyed.toList.mergeSort fun a b => compareKeys b.1 a.1 != .gt
        else keyed.toList.mergeSort fun a b => compareKeys a.1 b.1 != .gt
      pure (TupleSet.deliver (sorted.map (·.2)) style)
    | .generate source each all => do
      let s ← evalArg env fuel source
      let limiter ← env.generateLimited ⟨env.config.resultLimit, #[]⟩ s
        (fun t => within (.tuple t) (evalArg env fuel each)) all
      pure (TupleSet.deliver limiter.tuples.toList style)
    | other => do
      match ← eval env fuel other with
      | .set ts => pure ((TupleSet.list ts).adapt style)
      | .null => pure (.mutableList [])
      | v => throw (.internal ("produced " ++ v.typeName ++ " where a set was expected"))

/-- Runs a native site: `some` tuples when the cube computed the set, `none` to evaluate the
operator in memory. An operator without another implementation fails instead when the
configuration says so. -/
def dispatch (env : Env) : Nat → NativeSite → Bool → m (Option (List Tuple))
  | 0, _, _ => throw fuelExhausted
  | fuel + 1, site, nonEmpty => do
    match ← attempt env fuel site nonEmpty with
    | .ok ts => pure (some ts)
    | .error reason =>
      if !site.required then pure none
      else
        match env.config.alertNativeUnsupported with
        | .error => throw (.nativeUnsupported site.key reason)
        | _ => pure none

/-- Tries the native plan of a site: the tuples, or the reason the plan does not apply. -/
def attempt (env : Env) : Nat → NativeSite → Bool → m (Except String (List Tuple))
  | 0, _, _ => throw fuelExhausted
  | fuel + 1, site, nonEmpty => do
    match site.plan with
    | .error reason => pure (.error reason)
    | .ok plan =>
      let ctx ← context
      match env.nativeOp ctx plan site.required nonEmpty with
      | .error reason => pure (.error reason)
      | .ok (op, nonEmpty) =>
        if ctx.resolving.contains site.key then throw (.evaluationLoop site.key)
        let varied := plan.sources.map (·.hierarchy)
        match ← resolving site.key (constraintOf env fuel varied nonEmpty) with
        | .error reason => pure (.error reason)
        | .ok constraint =>
          if env.plain || !env.cube.nativeEnabled then
            pure (.error "the backend has no native plan for this request")
          else
            let request : NativeRequest :=
              ⟨op, plan.sources.filterMap (·.stored), constraint, nonEmpty⟩
            liftEval (modify fun c => { c with nativeExecutions := c.nativeExecutions + 1 })
            let rows ← liftExcept (env.cube.execute request)
            let limiter ← env.keepLimited ⟨env.config.resultLimit, #[]⟩ (.list rows) fun _ =>
              pure false
            if plan.sources.any (!·.calculated.isEmpty) then
              let merged ← mergeCalculated env fuel plan.sources nonEmpty limiter
              pure (.ok merged.tuples.toList)
            else pure (.ok limiter.tuples.toList)

/-- The context of a native request as relational constraints. Members of hierarchies the
operands vary are skipped; stored measures decide emptiness; a calculated measure must pass the
formula checks; a calculated member must be an aggregate of stored members of one hierarchy,
which becomes a slicer disjunction. -/
def constraintOf (env : Env) : Nat → List Nat → Bool → m (Except String ContextConstraint)
  | 0, _, _ => throw fuelExhausted
  | fuel + 1, varied, nonEmpty => do
    let mut k : ContextConstraint := {}
    for member in (← context).coordinate do
      if varied.contains member.hierarchy then continue
      if member.isMeasure then
        if member.isStoredMeasure then
          k := { k with measures := k.measures ++ [member] }
        else
          match FormulaCheck.safeMeasures env.config member with
          | .error reason => return .error reason
          | .ok measures =>
            if nonEmpty then
              match FormulaCheck.emptinessMeasure member with
              | .error reason => return .error reason
              | .ok s => k := { k with measures := k.measures ++ [s] }
            else k := { k with measures := k.measures ++ measures }
        continue
      if member.isCalculated then
        let node ← liftEval (env.formulaNode member)
        match node.aggregatedSet with
        | none =>
          return .error ("calculated member " ++ member.uniqueName ++
            " in the context is not an aggregate")
        | some set =>
          let tuples := (← within (.widen varied) (evalArg env fuel set)).toList
          if tuples.isEmpty then
            k := { k with slicer := k.slicer ++ [[]] }
            continue
          let projected := projectOut tuples varied
          if projected.isEmpty then continue
          if projected.any (·.length != 1) then
            return .error ("aggregate member " ++ member.uniqueName ++ " spans several hierarchies")
          let members := projected.filterMap (·.head?)
          if members.any (·.isCalculated) then
            return .error ("aggregate member " ++ member.uniqueName ++
              " aggregates calculated members")
          k := { k with slicer := k.slicer ++ [members] }
          continue
      if !member.isAll then k := { k with members := k.members ++ [member] }
    pure (.ok k)

/-- Appends to native rows every combination of operand members that contains a calculated
member; in non-empty mode only those whose cell is not empty. -/
def mergeCalculated (env : Env) : Nat → List ArgSource → Bool → Limiter → m Limiter
  | 0, _, _, _ => throw fuelExhausted
  | fuel + 1, sources, nonEmpty, limiter => do
    let mut lists : Array (List Tuple) := #[]
    let mut storedProduct : Nat := 1
    let mut fullProduct : Nat := 1
    for s in sources do
      let members ← match s.stored with
        | some src => liftExcept (env.cube.sourceMembers src)
        | none => pure []
      storedProduct := saturatingMul storedProduct members.length
      let all := members ++ s.calculated
      fullProduct := saturatingMul fullProduct all.length
      lists := lists.push (all.map ([·]))
    liftExcept (limiter.ensureRoom 0)
    if !nonEmpty then liftExcept (limiter.ensureRoom (fullProduct - storedProduct))
    let mut limiter := limiter
    for t in (TupleStream.product lists.toList) do
      if !t.any (·.isCalculated) then continue
      liftEval env.check
      if nonEmpty then
        if ← within (.tuple t) (isEmptyCell env fuel) then continue
      limiter ← liftExcept (limiter.push t)
    pure limiter

end

/-- The value of a node, with the default nesting bound. -/
def value (env : Env) (node : Node) : m Value := eval env evalFuel node

/-- A set operand, with the default nesting bound. -/
def setValue (env : Env) (arg : SetArg) : m TupleSet := evalArg env evalFuel arg

/-- The cell at the context's coordinate, with the default nesting bound. -/
def cell (env : Env) : m Value := cellValue env evalFuel

end Evaluator

end Env

end OlapCalc
