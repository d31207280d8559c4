import OlapCalc.Node.Basic
import OlapCalc.Function.Table

/-!
Compiling expressions to nodes.

`shapeOf` gives an expression's natural shape without compiling it. `compile e c` compiles `e`
to the node its own signature produces and then, when the caller asked for another category,
inserts a conversion node. A call is resolved against the function table by name, syntax and
argument shapes, and the chosen built-in builds the node; operators on literals are folded to
constants while compiling. `compileSet` also negotiates the set representation with the
consumer's preferences.

All functions take a fuel argument that bounds the nesting they may descend; `Exp.fuel` gives
enough for an expression.
-/

namespace OlapCalc

mutual

/-- The number of nodes of an expression, a bound on its depth. -/
def Exp.size : Exp → Nat
  | .call _ _ args => Exp.sizeAll args + 1
  | _ => 1

/-- The total size of a list of expressions. -/
def Exp.sizeAll : List Exp → Nat
  | [] => 0
  | e :: rest => Exp.size e + Exp.sizeAll rest

end

/-- Fuel that lets the compiler descend through every level of `e`: a call spends up to six
units on each of its arguments (compiling it, reading its shape, walking the argument list) and
two more on itself. -/
def Exp.fuel (e : Exp) : Nat := 6 * e.size + 2

/-- The shape of a literal. -/
def Literal.shape : Literal → Shape
  | .null => .scalar
  | .number _ => .float
  | .integer _ => .integer
  | .string _ => .string
  | .boolean _ => .boolean

/-- The value of a literal. -/
def Literal.value : Literal → Value
  | .null => .null
  | .number x => .float x
  | .integer n => .integer n
  | .string s => .string s
  | .boolean b => .boolean b

/-- A numeric literal: `some none` for the null literal. -/
def Literal.numeric? : Exp → Option (Option Float)
  | .literal (.number x) => some (some x)
  | .literal (.integer n) => some (some (Binary64.ofInt n))
  | .literal .null => some none
  | _ => none

/-- Compares two values: strings by their text, anything else as numbers; null on either side
gives null. Incomparable numbers (NaN) count as equal. -/
def compareValues (op : CompareOp) (l r : Value) : Except OlapError Value := do
  if l.isNull || r.isNull then return .null
  let ordering ← match l, r with
    | .string a, .string b => pure (some (compare a b))
    | .string a, other =>
      match other.toNumber with
      | .error _ => do pure (some (compare a ((← other.toText).getD "")))
      | .ok _ => numeric
    | other, .string a =>
      match other.toNumber with
      | .error _ => do pure (some (compare a ((← other.toText).getD "")).swap)
      | .ok _ => numeric
    | _, _ => numeric
  match ordering with
  | some o => pure (.boolean (op.holds o))
  | none => pure .null
where
  numeric : Except OlapError (Option Ordering) := do
    match ← l.toNumber, ← r.toNumber with
    | some a, some b => pure (some (if a < b then .lt else if b < a then .gt else .eq))
    | _, _ => pure none

namespace Compiler

/-- A conversion of a compiled node to a category, or the error saying there is none. -/
def convert (e : Exp) (n : Node) (target : Category) : Except OlapError Node :=
  let source := n.shape
  let fail : Except OlapError Node := throw (.noConversion e.render source target)
  if source.category == target then pure n
  else if target == .value && source.isScalar then pure n
  else
    match source, target with
    | .integer, .numeric => pure n
    | .float, .integer => pure (.truncate n)
    | .integer, .string | .float, .string | .boolean, .string => pure (.toText n)
    | .scalar, .numeric | .scalar, .integer | .scalar, .boolean | .scalar, .string
    | .boolean, .numeric | .boolean, .integer | .integer, .boolean
    | .string, .numeric | .string, .integer | .string, .boolean
    | .float, .boolean => pure (.coerce n target)
    | .member, .tuple => pure (.memberToTuple n)
    | .member, .set | .tuple _, .set => pure (.singleton n)
    | .member, .value | .tuple _, .value => pure (.memberValue n)
    | .member, .numeric | .member, .integer | .member, .boolean | .member, .string
    | .tuple _, .numeric | .tuple _, .integer | .tuple _, .boolean | .tuple _, .string =>
      pure (.coerce (.memberValue n) target)
    | .hierarchy, .member =>
      match e with
      | .hierarchy h => pure (.currentMember h.id)
      | _ => fail
    | _, _ => fail

/-- The upper-cased symbol at argument `i`, if that argument is a symbol. -/
def flag (args : List Exp) (i : Nat) : Option String :=
  match args[i]? with
  | some (.symbol s) => some (FunctionTable.key s)
  | _ => none

/-- A regression node over `(set, y [, x])`. -/
def regression (stat : RegressionStat) (arg : Nat → Except OlapError Node)
    (opt : Nat → Except OlapError (Option Node))
    (set : Nat → List ResultStyle → Except OlapError SetArg) : Except OlapError Node := do
  let s ← set 0 ResultStyle.iterate
  let y ← arg 1
  let x ← opt 2
  pure (.regression stat none s y x)

/-- A pairwise node over `(set, x [, y])`. -/
def pairwise (stat : PairStat) (arg : Nat → Except OlapError Node)
    (opt : Nat → Except OlapError (Option Node))
    (set : Nat → List ResultStyle → Except OlapError SetArg) : Except OlapError Node := do
  let s ← set 0 ResultStyle.iterate
  let x ← arg 1
  let y ← opt 2
  pure (.pairwise stat s x y)

mutual

/-- The natural shape of an expression. -/
def shapeOf (t : FunctionTable) : Nat → Exp → Except OlapError Shape
  | 0, _ => throw (.internal "expression nested too deeply")
  | fuel + 1, e =>
    match e with
    | .literal l => pure l.shape
    | .member _ => pure .member
    | .level _ => pure .level
    | .hierarchy _ => pure .hierarchy
    | .symbol _ => pure .symbol
    | .call name style args => do
      let shapes ← args.mapM (shapeOf t fuel)
      let spec ← t.resolve name style shapes
      pure (spec.returns.shape shapes)

/-- Compiles `e` to produce a value of category `c`. -/
def compile (t : FunctionTable) : Nat → Exp → Category → Except OlapError Node
  | 0, _, _ => throw (.internal "expression nested too deeply")
  | fuel + 1, e, c => do
    let n ← natural t fuel e
    convert e n c

/-- Compiles a set operand and negotiates its representation with `accepts`, the consumer's
preferences in order. -/
def compileSet (t : FunctionTable) : Nat → Exp → List ResultStyle → Except OlapError SetArg
  | 0, _, _ => throw (.internal "expression nested too deeply")
  | fuel + 1, e, accepts => do
    let n ← compile t fuel e .set
    match ResultStyle.negotiate n.styles accepts with
    | some style => pure (.mk n style)
    | none => throw (.noAcceptableRepresentation e.render n.styles accepts)

/-- The node an expression's own signature produces. -/
def natural (t : FunctionTable) : Nat → Exp → Except OlapError Node
  | 0, _ => throw (.internal "expression nested too deeply")
  | fuel + 1, e =>
    match e with
    | .literal l => pure (.const l.value l.shape)
    | .member m => pure (.memberConst m)
    | .level l => pure (.const (.level l) .level)
    | .hierarchy h => pure (.const (.hierarchy h) .hierarchy)
    | .symbol s => pure (.const (.string s) .symbol)
    | .call name style args => do
      let shapes ← args.mapM (shapeOf t fuel)
      let spec ← t.resolve name style shapes
      build t fuel spec e name args

/-- Compiles argument `i` to the category the signature declares for it. -/
def argument (t : FunctionTable) : Nat → FunctionSpec → List Exp → Nat → Except OlapError Node
  | 0, _, _, _ => throw (.internal "expression nested too deeply")
  | fuel + 1, spec, args, i =>
    match args[i]? with
    | some a => compile t fuel a (spec.argType i)
    | none => throw (.internal (spec.name ++ ": missing argument " ++ toString i))

/-- Compiles argument `i` if it is present. -/
def optArgument (t : FunctionTable) : Nat → FunctionSpec → List Exp → Nat →
    Except OlapError (Option Node)
  | 0, _, _, _ => throw (.internal "expression nested too deeply")
  | fuel + 1, spec, args, i =>
    match args[i]? with
    | some a => some <$> compile t fuel a (spec.argType i)
    | none => pure none

/-- Compiles argument `i` as a set operand. -/
def setArgument (t : FunctionTable) : Nat → List Exp → Nat → List ResultStyle →
    Except OlapError SetArg
  | 0, _, _, _ => throw (.internal "expression nested too deeply")
  | fuel + 1, args, i, accepts =>
    match args[i]? with
    | some a => compileSet t fuel a accepts
    | none => throw (.internal ("missing argument " ++ toString i))

/-- The items of an enumerated set `{a, b, ...}`: all must have one arity. -/
def enumItems (t : FunctionTable) : Nat → Exp → List Exp → Option Nat →
    Except OlapError (List SetItem × Option Nat)
  | 0, _, _, _ => throw (.internal "expression nested too deeply")
  | _ + 1, _, [], arity => pure ([], arity)
  | fuel + 1, whole, item :: rest, arity => do
    let shape ← shapeOf t fuel item
    let itemArity := shape.arity
    if let some expected := arity then
      if expected != itemArity then
        throw (.typeError (whole.render ++ ": items have different arities (" ++
          toString expected ++ " and " ++ toString itemArity ++ ")"))
    let compiled ← match shape with
      | .member | .tuple _ => SetItem.single <$> compile t fuel item shape.category
      | _ => SetItem.splice <$> compileSet t fuel item ResultStyle.iterate
    let (others, arity) ← enumItems t fuel whole rest (some (arity.getD itemArity))
    pure (compiled :: others, arity)

/-- Compiles every argument to its declared category. -/
def allArguments (t : FunctionTable) : Nat → FunctionSpec → List Exp → Nat →
    Except OlapError (List Node)
  | 0, _, _, _ => throw (.internal "expression nested too deeply")
  | fuel + 1, spec, args, i =>
    if i < args.length then do
      let n ← argument t fuel spec args i
      let rest ← allArguments t fuel spec args (i + 1)
      pure (n :: rest)
    else pure []

/-- Compiles every argument as a set operand preferring random access. -/
def allSets (t : FunctionTable) : Nat → List Exp → Except OlapError (List SetArg)
  | 0, _ => throw (.internal "expression nested too deeply")
  | _ + 1, [] => pure []
  | fuel + 1, a :: rest => do
    let s ← compileSet t fuel a ResultStyle.randomAccess
    let others ← allSets t fuel rest
    pure (s :: others)

/-- Builds the node of a resolved call. -/
def build (t : FunctionTable) : Nat → FunctionSpec → Exp → String → List Exp →
    Except OlapError Node
  | 0, _, _, _, _ => throw (.internal "expression nested too deeply")
  | fuel + 1, spec, e, name, args =>
    let arg := argument t fuel spec args
    let opt := optArgument t fuel spec args
    let set := setArgument t fuel args
    match spec.builtin with
    | .arithmetic => do
      let some op := ArithOp.ofSymbol? name | throw (.internal ("unknown operator " ++ name))
      let folded : Option Node :=
        match args with
        | [l, r] =>
          match Literal.numeric? l, Literal.numeric? r with
          | some a, some b =>
            match op.apply a b with
            | .ok v => some (.const (Value.ofOptFloat v) .float)
            | .error _ => none
          | _, _ => none
        | _ => none
      match folded with
      | some n => pure n
      | none => pure (.arith op (← arg 0) (← arg 1))
    | .negate =>
      match args.head?.bind Literal.numeric? with
      | some (some x) => pure (.const (.float (-x)) .float)
      | _ => do pure (.negate (← arg 0))
    | .compare => do
      let some op := CompareOp.ofSymbol? name | throw (.internal ("unknown comparison " ++ name))
      let folded : Option Node :=
        match args with
        | [.literal l, .literal r] =>
          match compareValues op l.value r.value with
          | .ok v => some (.const v .boolean)
          | .error _ => none
        | _ => none
      match folded with
      | some n => pure n
      | none => pure (.compare op (← arg 0) (← arg 1))
    | .logical =>
      let conjunction := Exp.sameName name "AND"
      match args with
      | [.literal (.boolean l), .literal (.boolean r)] =>
        pure (.const (.boolean (if conjunction then l && r else l || r)) .boolean)
      | _ => do pure (.logical conjunction (← arg 0) (← arg 1))
    | .not => do pure (.not (← arg 0))
    | .iif => do
      let c ← arg 0
      let a ← arg 1
      let b ← arg 2
      pure (.iif c a b (spec.returns.shape [c.shape, a.shape, b.shape]))
    | .isEmpty => do pure (.isEmpty (← arg 0))
    | .coalesceEmpty => do
      let ns ← allArguments t fuel spec args 0
      pure (.coalesce ns (spec.returns.shape (ns.map Node.shape)))
    | .format => do
      let v ← arg 0
      match (args[1]? : Option Exp) with
      | some (.literal (.string p)) => pure (.format v (Formatter.ofPattern p))
      | _ => pure (.formatWith v (← arg 1))
    | .currentMember =>
      match args with
      | [.hierarchy h] => pure (.currentMember h.id)
      | _ => throw (.typeError (name ++ " expects a hierarchy, got " ++ e.render))
    | .defaultMember =>
      match args with
      | [.hierarchy h] => pure (.memberConst h.defaultMember)
      | _ => throw (.typeError (name ++ " expects a hierarchy, got " ++ e.render))
    | .parent => do pure (.parent (← arg 0))
    | .name => do pure (.memberName (← arg 0))
    | .tuple => do pure (.tuple (← allArguments t fuel spec args 0))
    | .members =>
      match args with
      | [.level l] => pure (.levelMembers l)
      | _ => throw (.typeError (e.render ++ " requires a level reference"))
    | .children => do pure (.children (← arg 0))
    | .braces => do
      let (items, arity) ← enumItems t fuel e args none
      pure (.enumerate items (arity.getD 1))
    | .crossJoin => do
      pure (.crossJoin (← allSets t fuel args) (NativeSite.ofCrossJoin e args) false)
    | .nonEmptyCrossJoin => do
      pure (.crossJoin (← allSets t fuel args) (NativeSite.ofCrossJoin e args) true)
    | .filter => do
      let s ← set 0 ResultStyle.iterate
      let c ← arg 1
      pure (.filter s c (NativeSite.ofFilter e (args.getD 0 default) (args.getD 1 default)))
    | .topCount => do
      let s ← set 0 ResultStyle.mutate
      let k ← arg 1
      let m ← opt 2
      let site := NativeSite.ofTopCount e (args.getD 0 default) (args.getD 1 default) args[2]?
      pure (.topCount s k m (some site) true)
    | .bottomCount => do
      let s ← set 0 ResultStyle.mutate
      let k ← arg 1
      let m ← arg 2
      pure (.topCount s k (some m) none false)
    | .head => do
      let s ← set 0 ResultStyle.iterate
      pure (.head s (← opt 1))
    | .order => do
      let s ← set 0 ResultStyle.mutate
      let key ← arg 1
      let descending ← match flag args 2 with
        | none | some "ASC" | some "BASC" => pure false
        | some "DESC" | some "BDESC" => pure true
        | some other => throw (.typeError (e.render ++ ": unknown sort flag " ++ other))
      pure (.order s key descending)
    | .generate => do
      let source ← set 0 ResultStyle.iterate
      let each ← set 1 ResultStyle.randomAccess
      let all ← match flag args 2 with
        | none => pure false
        | some "ALL" => pure true
        | some other => throw (.typeError (e.render ++ ": unknown flag " ++ other))
      pure (.generate source each all)
    | .slicer => pure (.slicer 1)
    | .count => do
      let exclude ← match flag args 1 with
        | none | some "INCLUDEEMPTY" => pure false
        | some "EXCLUDEEMPTY" => pure true
        | some other => throw (.typeError (e.render ++ ": unknown flag " ++ other))
      pure (.count (← set 0 ResultStyle.iterate) exclude)
    | .sum => do pure (.sum (← set 0 ResultStyle.iterate) (← opt 1))
    | .avg => do pure (.avg (← set 0 ResultStyle.iterate) (← opt 1))
    | .min => do pure (.extremum (← set 0 ResultStyle.iterate) (← opt 1) false)
    | .max => do pure (.extremum (← set 0 ResultStyle.iterate) (← opt 1) true)
    | .median => do pure (.percentile (← set 0 ResultStyle.iterate) (← opt 1) none)
    | .percentile => do
      let s ← set 0 ResultStyle.iterate
      let v ← arg 1
      let p ← arg 2
      pure (.percentile s (some v) (some p))
    | .var => do pure (.dispersion (← set 0 ResultStyle.iterate) (← opt 1) .sample false)
    | .varP => do pure (.dispersion (← set 0 ResultStyle.iterate) (← opt 1) .population false)
    | .stdev => do pure (.dispersion (← set 0 ResultStyle.iterate) (← opt 1) .sample true)
    | .stdevP => do pure (.dispersion (← set 0 ResultStyle.iterate) (← opt 1) .population true)
    | .linRegSlope => regression .slope arg opt set
    | .linRegIntercept => regression .intercept arg opt set
    | .linRegR2 => regression .r2 arg opt set
    | .linRegVariance => regression .variance arg opt set
    | .linRegPoint => do
      let x ← arg 0
      let s ← set 1 ResultStyle.iterate
      let y ← arg 2
      let xs ← opt 3
      pure (.regression .point (some x) s y xs)
    | .covariance => pairwise (.covariance .population) arg opt set
    | .covarianceN => pairwise (.covariance .sample) arg opt set
    | .correlation => pairwise .correlation arg opt set
    | .aggregate => do pure (.aggregate (← set 0 ResultStyle.iterate) (← opt 1))

end

end Compiler

namespace FunctionTable

/-- The natural shape of an expression. -/
def typeOf (t : FunctionTable) (e : Exp) : Except OlapError Shape :=
  Compiler.shapeOf t e.fuel e

/-- Compiles an expression to a category. -/
def compile (t : FunctionTable) (e : Exp) (c : Category) : Except OlapError Node :=
  Compiler.compile t e.fuel e c

/-- Compiles a set expression for a consumer with the given preferences. -/
def compileSet (t : FunctionTable) (e : Exp) (accepts : List ResultStyle) :
    Except OlapError SetArg :=
  Compiler.compileSet t e.fuel e accepts

end FunctionTable

end OlapCalc
