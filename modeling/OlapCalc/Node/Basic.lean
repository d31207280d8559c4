import OlapCalc.Native.Site
import OlapCalc.Format.Pattern
import OlapCalc.Numeric.Stats

/-!
Compiled nodes.

The compiler turns an expression into a `Node`, once; evaluation then runs the node against a
context any number of times. A node fixes its output `shape`, the set representations it can
hand to a consumer (`styles`), and which hierarchies its value can depend on (`dependsOn`).
A set operand (`SetArg`) is a node together with the representation negotiated for it.
-/

namespace OlapCalc

/-- The four arithmetic operators. -/
inductive ArithOp where
  | add
  | sub
  | mul
  | div
deriving Repr, BEq, DecidableEq, Inhabited

namespace ArithOp

/-- The operator written as `symbol`. -/
def ofSymbol? : String → Option ArithOp
  | "+" => some .add
  | "-" => some .sub
  | "*" => some .mul
  | "/" => some .div
  | _ => none

/-- Applies the operator to two optional numbers. `+` and `-` read one missing side as zero and
give null only when both are missing; `*` and `/` give null when either is; dividing a number by
zero is an error. -/
def apply (op : ArithOp) (l r : Option Float) : Except OlapError (Option Float) :=
  match op with
  | .add | .sub =>
    match l, r with
    | none, none => pure none
    | _, _ =>
      let a := l.getD Binary64.zero
      let b := r.getD Binary64.zero
      pure (some (if op == .add then a + b else a - b))
  | .mul =>
    match l, r with
    | some a, some b => pure (some (a * b))
    | _, _ => pure none
  | .div =>
    match l, r with
    | some a, some b => if b == Binary64.zero then throw .divisionByZero else pure (some (a / b))
    | _, _ => pure none

end ArithOp

/-- The statistic a linear-regression node reports. -/
inductive RegressionStat where
  | slope
  | intercept
  | r2
  | variance
  /-- The fitted line's value at an x computed in the calling context. -/
  | point
deriving Repr, BEq, DecidableEq, Inhabited

/-- The statistic of a pairwise node. -/
inductive PairStat where
  | covariance (kind : Stats.Dispersion)
  | correlation
deriving Inhabited

mutual

/-- A compiled expression. -/
inductive Node where
  /-- A constant with its shape. -/
  | const (value : Value) (shape : Shape)
  | memberConst (m : Member)
  /-- The current member of a hierarchy. -/
  | currentMember (hierarchy : Nat)
  | parent (member : Node)
  | memberName (member : Node)
  | tuple (members : List Node)
  | memberToTuple (member : Node)
  | arith (op : ArithOp) (left right : Node)
  | negate (arg : Node)
  | compare (op : CompareOp) (left right : Node)
  /-- `AND` when `conjunction`, else `OR`. -/
  | logical (conjunction : Bool) (left right : Node)
  | not (arg : Node)
  | iif (condition whenTrue whenFalse : Node) (shape : Shape)
  | isEmpty (arg : Node)
  | coalesce (args : List Node) (shape : Shape)
  /-- `Format` with a pattern known when compiling. -/
  | format (value : Node) (formatter : Formatter)
  /-- `Format` with a computed pattern. -/
  | formatWith (value pattern : Node)
  /-- A run-time conversion of a scalar to a category. -/
  | coerce (arg : Node) (target : Category)
  | truncate (arg : Node)
  | toText (arg : Node)
  /-- The cell value with a member or tuple placed on the current context. -/
  | memberValue (tuple : Node)
  | levelMembers (level : LevelRef)
  | children (member : Node)
  | enumerate (items : List SetItem) (arity : Nat)
  | singleton (item : Node)
  /-- The evaluation context's slicer tuples. -/
  | slicer (arity : Nat)
  | crossJoin (args : List SetArg) (site : NativeSite) (forceNonEmpty : Bool)
  | filter (set : SetArg) (condition : Node) (site : NativeSite)
  /-- `TopCount` (`top`) or `BottomCount`; top counts have a native site. -/
  | topCount (set : SetArg) (count : Node) (measure : Option Node) (site : Option NativeSite)
      (top : Bool)
  | head (set : SetArg) (count : Option Node)
  | order (set : SetArg) (key : Node) (descending : Bool)
  | generate (source each : SetArg) (all : Bool)
  | sum (set : SetArg) (value : Option Node)
  | avg (set : SetArg) (value : Option Node)
  /-- `Max` when `max`, else `Min`. -/
  | extremum (set : SetArg) (value : Option Node) (max : Bool)
  /-- `Percentile`, or `Median` when there is no percent. -/
  | percentile (set : SetArg) (value : Option Node) (percent : Option Node)
  /-- Variance, or standard deviation when `root`. -/
  | dispersion (set : SetArg) (value : Option Node) (kind : Stats.Dispersion) (root : Bool)
  /-- A linear-regression statistic; `point` is the forecast x of `LinRegPoint`. -/
  | regression (stat : RegressionStat) (point : Option Node) (set : SetArg) (y : Node) (x : Option Node)
  | pairwise (stat : PairStat) (set : SetArg) (x : Node) (y : Option Node)
  | count (set : SetArg) (excludeEmpty : Bool)
  | aggregate (set : SetArg) (value : Option Node)

/-- A set operand with its negotiated representation. -/
inductive SetArg where
  | mk (node : Node) (style : ResultStyle)

/-- An item of an enumerated set: a member or tuple, or a set spliced in. -/
inductive SetItem where
  | single (node : Node)
  | splice (arg : SetArg)

end

instance : Inhabited Node := ⟨.const .null .scalar⟩

namespace SetArg

/-- The operand's node. -/
def node : SetArg → Node
  | .mk n _ => n

/-- The negotiated representation. -/
def style : SetArg → ResultStyle
  | .mk _ s => s

end SetArg

namespace Node

mutual

/-- The natural output shape. -/
def shape : Node → Shape
  | .const _ s => s
  | .memberConst _ | .currentMember _ | .parent _ => .member
  | .memberName _ => .string
  | .tuple ms => .tuple ms.length
  | .memberToTuple _ => .tuple 1
  | .arith .. | .negate _ => .float
  | .compare .. | .logical .. | .not _ | .isEmpty _ => .boolean
  | .iif _ _ _ s => s
  | .coalesce _ s => s
  | .format .. | .formatWith .. => .string
  | .coerce a target => (shape a).convertedTo target
  | .truncate _ => .integer
  | .toText _ => .string
  | .memberValue _ => .scalar
  | .levelMembers _ | .children _ => .set 1
  | .enumerate _ n => .set n
  | .singleton item => .set (shape item).arity
  | .slicer n => .set n
  | .crossJoin args _ _ => .set (totalArity args)
  | .filter set _ _ => .set (argArity set)
  | .topCount set .. => .set (argArity set)
  | .head set _ => .set (argArity set)
  | .order set .. => .set (argArity set)
  | .generate _ each _ => .set (argArity each)
  | .sum .. | .avg .. | .extremum .. | .percentile .. | .dispersion .. | .regression ..
  | .pairwise .. => .float
  | .count .. => .integer
  | .aggregate .. => .scalar

/-- The arity of a set operand. -/
def argArity : SetArg → Nat
  | .mk n _ => (shape n).arity

/-- The summed arity of set operands. -/
def totalArity : List SetArg → Nat
  | [] => 0
  | a :: rest => argArity a + totalArity rest

end

/-- The set representations the node can produce, cheapest first; non-set nodes produce a
value. -/
def styles : Node → List ResultStyle
  | .levelMembers _ | .slicer _ => ResultStyle.sharedList
  | .children _ | .enumerate .. | .singleton _ | .crossJoin .. | .filter .. | .topCount ..
  | .head .. | .order .. | .generate .. => ResultStyle.anySet
  | _ => [.value]

/-- The set an `Aggregate` node rolls up. -/
def aggregatedSet : Node → Option SetArg
  | .aggregate set _ => some set
  | _ => none

mutual

/-- Whether the node's value may change when the current member of hierarchy `h` changes.
Nodes that read the current cell (an aggregate without a value expression, for one) depend
on every hierarchy. -/
def dependsOn (h : Nat) : Node → Bool
  | .const .. | .memberConst _ | .levelMembers _ | .slicer _ => false
  | .currentMember k => k == h
  | .memberValue _ => true
  | .parent m | .memberName m | .memberToTuple m | .negate m | .not m | .isEmpty m
  | .coerce m _ | .truncate m | .toText m | .children m | .singleton m | .format m _ =>
    dependsOn h m
  | .tuple ms | .coalesce ms _ => anyDepends h ms
  | .arith _ l r | .compare _ l r | .logical _ l r | .formatWith l r => dependsOn h l || dependsOn h r
  | .iif c t e _ => dependsOn h c || dependsOn h t || dependsOn h e
  | .enumerate items _ => itemsDepend h items
  | .crossJoin args _ force => force || argsDepend h args
  | .filter set c _ => argDepends h set || dependsOn h c
  | .topCount set k measure _ _ =>
    match measure with
    | none => true
    | some m => argDepends h set || dependsOn h k || dependsOn h m
  | .head set k => argDepends h set || optDepends h k
  | .order set key _ => argDepends h set || dependsOn h key
  | .generate source each _ => argDepends h source || argDepends h each
  | .sum set v | .avg set v | .extremum set v _ | .dispersion set v _ _ | .aggregate set v =>
    match v with
    | none => true
    | some v => argDepends h set || dependsOn h v
  | .percentile set v p =>
    match v with
    | none => true
    | some v => argDepends h set || dependsOn h v || optDepends h p
  | .regression _ point set y x =>
    argDepends h set || dependsOn h y || optDepends h x || optDepends h point
  | .pairwise _ set x y =>
    match y with
    | none => true
    | some y => argDepends h set || dependsOn h x || dependsOn h y
  | .count set exclude => exclude || argDepends h set

/-- Whether an optional node depends on `h`. -/
def optDepends (h : Nat) : Option Node → Bool
  | none => false
  | some n => dependsOn h n

/-- Whether a set operand depends on `h`. -/
def argDepends (h : Nat) : SetArg → Bool
  | .mk n _ => dependsOn h n

/-- Whether one of the nodes depends on `h`. -/
def anyDepends (h : Nat) : List Node → Bool
  | [] => false
  | n :: rest => dependsOn h n || anyDepends h rest

/-- Whether one of the operands depends on `h`. -/
def argsDepend (h : Nat) : List SetArg → Bool
  | [] => false
  | a :: rest => argDepends h a || argsDepend h rest

/-- Whether one of the set items depends on `h`. -/
def itemsDepend (h : Nat) : List SetItem → Bool
  | [] => false
  | .single n :: rest => dependsOn h n || itemsDepend h rest
  | .splice a :: rest => argDepends h a || itemsDepend h rest

end

end Node

end OlapCalc
