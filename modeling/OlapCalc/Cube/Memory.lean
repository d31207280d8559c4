import OlapCalc.Cube.Request
import OlapCalc.Value.Basic
import OlapCalc.Numeric.Stats

/-!
The in-memory cube: a flat fact list under a set of hierarchies.

It answers the schema questions of the engine (hierarchies, level members, children, lookups
by unique name, level cardinalities) and the backend ones (cell values, native requests). A
fact carries one member per dimension hierarchy and one optional value per measure; a cell
rolls up every fact under all the non-measure members of its coordinate with the measure's
aggregator. Native requests are answered by scanning the facts, so their results agree with
interpreted evaluation.
-/

namespace OlapCalc

/-- One fact row. -/
structure Fact where
  /-- One member per dimension hierarchy, in id order starting at hierarchy `1`. -/
  members : List Member
  /-- One value per measure. -/
  values : List (Option Float)
deriving Inhabited

namespace Fact

/-- The fact's member of hierarchy `h` (none for the measures hierarchy `0`). -/
def member? (f : Fact) (h : Nat) : Option Member :=
  if h == 0 then none else f.members[h - 1]?

/-- Whether the fact lies under `m`: every fact lies under an `All` member. -/
def liesUnder (f : Fact) (m : Member) : Bool :=
  m.isAll ||
    match f.member? m.hierarchy with
    | some stored => m.isAncestorOrSelf stored
    | none => false

/-- Whether the fact lies under every member of a tuple. -/
def matchesAll (f : Fact) (ms : List Member) : Bool := ms.all f.liesUnder

/-- The fact's value of measure `idx`. -/
def value? (f : Fact) (idx : Nat) : Option Float := (f.values[idx]?).bind id

end Fact

/-- An in-memory cube. Hierarchy `0` is the measures hierarchy. -/
structure Cube where
  hierarchies : List Hierarchy
  measures : List Member
  /-- Members per hierarchy and depth, in insertion order. -/
  levels : List (List (List Member))
  /-- Children by parent unique name, in insertion order. -/
  children : List (String × List Member)
  facts : List Fact
  /-- Whether the backend offers native plans. -/
  nativeEnabled : Bool := true
deriving Inhabited

/-- `name` equals `prefixText` or continues it with another `.[segment]`. -/
def hasSegmentPrefix (name prefixText : String) : Bool :=
  name == prefixText || name.startsWith (prefixText ++ ".[")

namespace Cube

/-- The hierarchy with id `h`. -/
def hierarchy? (c : Cube) (h : Nat) : Option Hierarchy := c.hierarchies[h]?

/-- The id of the measures hierarchy. -/
def measuresHierarchy? (c : Cube) : Option Nat := (c.hierarchies.find? (·.isMeasures)).map (·.id)

/-- The children of a member, in insertion order. -/
def childrenOf (c : Cube) (m : Member) : List Member :=
  ((c.children.find? (·.1 == m.uniqueName)).map (·.2)).getD []

/-- Resolves a unique name by walking the hierarchy tree from its `All` member (or matching a
stored measure). -/
def resolve? (c : Cube) (uniqueName : String) : Option Member :=
  match c.measures.find? (·.uniqueName == uniqueName) with
  | some m => some m
  | none =>
    let roots := (c.hierarchies.filter (!·.isMeasures)).map (·.defaultMember)
    match roots.find? (hasSegmentPrefix uniqueName ·.uniqueName) with
    | none => none
    | some root => walk root (uniqueName.length + 1)
where
  walk (current : Member) : Nat → Option Member
    | 0 => none
    | fuel + 1 =>
      if current.uniqueName == uniqueName then some current
      else
        match (c.childrenOf current).find? (hasSegmentPrefix uniqueName ·.uniqueName) with
        | some next => walk next fuel
        | none => none

/-- The stored measure named `name`, ignoring ASCII case. -/
def measureNamed? (c : Cube) (name : String) : Option Member :=
  c.measures.find? (Exp.sameName ·.name name)

/-- The level at `depth` of hierarchy `h`. -/
def level? (c : Cube) (h depth : Nat) : Option LevelRef := (c.hierarchy? h).bind (·.level depth)

/-- The members of a level. -/
def levelMembers (c : Cube) (l : LevelRef) : Except OlapError (List Member) :=
  match (c.levels[l.hierarchy]?).bind (·[l.depth]?) with
  | some ms => pure ms
  | none => throw (.unknownMember l.uniqueName)

/-- The number of members of a level, if the level exists. -/
def levelCardinality? (c : Cube) (l : LevelRef) : Option Nat :=
  ((c.levels[l.hierarchy]?).bind (·[l.depth]?)).map List.length

/-- The position of a stored measure. -/
def measureIndex (c : Cube) (m : Member) : Except OlapError Nat :=
  match c.measures.findIdx? (· == m) with
  | some i => pure i
  | none => throw (.backend (m.uniqueName ++ " is not a stored measure"))

/-- Rolls up the values of measure `idx` over facts with an aggregator; `none` when no fact
has a value. -/
def rollup (facts : List Fact) (idx : Nat) (agg : Aggregator) : Option Float :=
  match facts.filterMap (·.value? idx) with
  | [] => none
  | first :: rest =>
    some <|
      match agg with
      | .sum => Stats.sum (first :: rest)
      | .count => Binary64.ofNat (rest.length + 1)
      | .min => rest.foldl Binary64.fmin first
      | .max => rest.foldl Binary64.fmax first

/-- The cell value at a full coordinate: the first measure of the coordinate rolled up over
the facts under its other members. -/
def loadCell (c : Cube) (coordinate : List Member) : Except OlapError Value := do
  let some measure := coordinate.find? (·.isMeasure)
    | throw (.backend "coordinate has no measure")
  if let some calculated := coordinate.find? (·.isCalculated) then
    throw (.backend ("cannot load a cell for calculated member " ++ calculated.uniqueName))
  let idx ← c.measureIndex measure
  let agg := measure.aggregator.getD .sum
  let others := coordinate.filter (!·.isMeasure)
  pure (Value.ofOptFloat (rollup (c.facts.filter (·.matchesAll others)) idx agg))

/-- The members a source ranges over, in natural order. -/
def sourceMembers (c : Cube) : MemberSource → Except OlapError (List Member)
  | .level l => c.levelMembers l
  | .children m => pure (c.childrenOf m)
  | .members ms => pure ms

/-- The facts passing the constraint's members and each of its slicer disjunctions. -/
def constrainedFacts (c : Cube) (k : ContextConstraint) : List Fact :=
  c.facts.filter fun f => f.matchesAll k.members && k.slicer.all (·.any f.liesUnder)

/-- Whether some fact under `t` has a value for one of the measures (any fact when there are
no measures). -/
def hasData (facts : List Fact) (t : Tuple) (measures : List Nat) : Bool :=
  facts.any fun f => f.matchesAll t && (measures.isEmpty || measures.any (f.value? · |>.isSome))

/-- The value of `measure` rolled up over the facts under `t`. -/
def tupleValue (c : Cube) (facts : List Fact) (t : Tuple) (measure : Member) :
    Except OlapError (Option Float) := do
  let idx ← c.measureIndex measure
  pure (rollup (facts.filter (·.matchesAll t)) idx (measure.aggregator.getD .sum))

end Cube

/-- The cartesian product of tuple lists, the last list varying fastest; empty when there are
no lists. -/
def cartesian : List (List Tuple) → List Tuple
  | [] => []
  | [l] => l
  | l :: rest => l.flatMap fun t => (cartesian rest).map (t ++ ·)

/-- Ranking keys of native top-count: nulls lowest, NaN highest, `-0 = 0`. -/
def rankKeyLe (a b : Option Float) : Bool :=
  match a, b with
  | none, _ => true
  | some _, none => false
  | some x, some y =>
    if y.isNaN then true else if x.isNaN then false else x ≤ y

namespace Cube

/-- The tuples a native request delivers, in order. -/
def execute (c : Cube) (r : NativeRequest) : Except OlapError (List Tuple) := do
  let lists ← r.args.mapM fun s => do
    let ms ← c.sourceMembers s
    pure (ms.map fun m => [m])
  let facts := c.constrainedFacts r.constraint
  let measures ← r.constraint.measures.mapM c.measureIndex
  let keep (t : Tuple) : Bool := !r.nonEmpty || hasData facts t measures
  let product := cartesian lists
  match r.op with
  | .crossJoin => pure (product.filter keep)
  | .topCount count measure =>
    let ranked ← (product.filter keep).mapM fun t => do
      let key ← c.tupleValue facts t measure
      pure (key, t)
    let sorted := ranked.mergeSort fun a b => rankKeyLe b.1 a.1
    pure ((sorted.take count).map (·.2))
  | .filter measure op operand =>
    (product.filter keep).filterMapM fun t => do
      match ← c.tupleValue facts t measure with
      | some v => pure (if op.test v operand then some t else none)
      | none => pure none

end Cube

end OlapCalc
