import OlapCalc.Value.Shape
import OlapCalc.Model.Render
import OlapCalc.Error

/-!
The function table.

A function is looked up by name (ignoring ASCII case), by how the call is written and by its
number of arguments. Each argument's shape must convert to the category the signature expects;
conversions have costs, and among the candidates the cheapest total wins, the earlier
registration winning ties. The built-in table registers operators, logical and text functions,
member functions, set functions and statistics, in that order.
-/

namespace OlapCalc

/-- How a function's natural result shape follows from its argument shapes. -/
inductive Returns where
  | fixed (shape : Shape)
  /-- A set with the arity of argument `n`. -/
  | setOf (n : Nat)
  /-- A set whose arity is the sum of the argument arities. -/
  | crossJoin
  /-- A set with the arity of the first argument. -/
  | braces
  /-- A tuple of all arguments. -/
  | tuple
  /-- The most general scalar among the arguments from index `start` on. -/
  | unified (start : Nat)
deriving Repr, BEq, DecidableEq, Inhabited

/-- The built-in implementations. -/
inductive Builtin where
  | arithmetic | negate | compare | logical | not
  | iif | isEmpty | coalesceEmpty
  | format
  | currentMember | defaultMember | parent | name | tuple
  | members | children | braces | crossJoin | nonEmptyCrossJoin | filter | topCount
  | bottomCount | head | order | generate | slicer
  | count | sum | avg | min | max | median | percentile | var | varP | stdev | stdevP
  | linRegSlope | linRegIntercept | linRegR2 | linRegVariance | linRegPoint
  | covariance | covarianceN | correlation | aggregate
deriving Repr, BEq, DecidableEq, Inhabited

/-- Most arguments a variadic function takes. -/
def varArgs : Nat := 255

/-- A function signature and its implementation. -/
structure FunctionSpec where
  name : String
  style : CallSyntax
  minArgs : Nat
  maxArgs : Nat
  returns : Returns
  /-- Expected argument categories; the last one repeats. -/
  argTypes : List Category
  builtin : Builtin
deriving Inhabited

namespace CallSyntax

/-- The syntax's variant name. -/
def title : CallSyntax → String
  | .function => "Function"
  | .property => "Property"
  | .method => "Method"
  | .operator => "Infix"
  | .unary => "Prefix"
  | .braces => "Braces"
  | .parentheses => "Parentheses"

end CallSyntax

/-- The cost of converting a node of shape `source` to `target`, or `none` when there is no
conversion. Exact matches are free. -/
def conversionCost (source : Shape) (target : Category) : Option Nat :=
  if source.category == target then some 0
  else
    let memberLike := source.isMemberLike
    match target with
    | .value => if source.isScalar then some 0 else if memberLike then some 2 else none
    | .numeric =>
      match source with
      | .integer => some 0
      | .scalar | .boolean => some 1
      | .string => some 2
      | _ => if memberLike then some 3 else none
    | .integer =>
      match source with
      | .float | .scalar => some 1
      | .boolean | .string => some 2
      | _ => if memberLike then some 3 else none
    | .boolean =>
      match source with
      | .scalar | .integer | .float => some 1
      | .string => some 2
      | _ => if memberLike then some 3 else none
    | .string =>
      match source with
      | .scalar | .integer | .float | .boolean => some 1
      | _ => if memberLike then some 3 else none
    | .member => if source == .hierarchy then some 1 else none
    | .tuple => if source == .member then some 1 else none
    | .set =>
      match source with
      | .tuple _ => some 1
      | .member => some 2
      | _ => none
    | _ => none

/-- The natural result shape of a call with the given argument shapes. -/
def Returns.shape (r : Returns) (args : List Shape) : Shape :=
  match r with
  | .fixed s => s
  | .setOf n => .set ((args[n]?).map Shape.arity |>.getD 1)
  | .crossJoin => .set ((args.map Shape.arity).foldr (· + ·) 0)
  | .tuple => .tuple ((args.map Shape.arity).foldr (· + ·) 0)
  | .braces => .set ((args.head?).map Shape.arity |>.getD 1)
  | .unified start =>
    match (args.drop start).map (fun s => if s.isScalar then s else .scalar) with
    | [] => .scalar
    | s :: rest => rest.foldl Shape.unify s

namespace FunctionSpec

/-- The category expected for argument `i`. -/
def argType (spec : FunctionSpec) (i : Nat) : Category :=
  match spec.argTypes[i]? with
  | some c => c
  | none => spec.argTypes.getLast?.getD .value

/-- The total conversion cost of calling with `args`, if every argument converts. -/
def cost (spec : FunctionSpec) (args : List Shape) : Option Nat :=
  (args.zipIdx.mapM fun (s, i) => conversionCost s (spec.argType i)).map (List.foldr (· + ·) 0)

/-- The spec as its debug text. -/
def debug (spec : FunctionSpec) : String :=
  "FunctionSpec \x7b name: \"" ++ spec.name ++ "\", syntax: " ++ spec.style.title ++
    ", min_args: " ++ toString spec.minArgs ++ ", max_args: " ++ toString spec.maxArgs ++ " \x7d"

end FunctionSpec

/-- A function table: specs in registration order. -/
structure FunctionTable where
  specs : List FunctionSpec
deriving Inhabited

namespace FunctionTable

/-- The table without functions. -/
def empty : FunctionTable := ⟨[]⟩

/-- A spec written as a function call. -/
def fn (name : String) (minArgs maxArgs : Nat) (argTypes : List Category) (returns : Returns)
    (builtin : Builtin) : FunctionSpec :=
  ⟨name, .function, minArgs, maxArgs, returns, argTypes, builtin⟩

/-- The operators. -/
def operators : List FunctionSpec :=
  (["+", "-", "*", "/"].map fun n =>
    ⟨n, .operator, 2, 2, .fixed .float, [.numeric, .numeric], .arithmetic⟩) ++
  [⟨"-", .unary, 1, 1, .fixed .float, [.numeric], .negate⟩] ++
  (["=", "<>", "<", "<=", ">", ">="].map fun n =>
    ⟨n, .operator, 2, 2, .fixed .boolean, [.value, .value], .compare⟩) ++
  (["AND", "OR"].map fun n =>
    ⟨n, .operator, 2, 2, .fixed .boolean, [.boolean, .boolean], .logical⟩) ++
  [⟨"NOT", .unary, 1, 1, .fixed .boolean, [.boolean], .not⟩]

/-- Conditionals and emptiness tests. -/
def logicalFunctions : List FunctionSpec :=
  [fn "IIf" 3 3 [.boolean, .value, .value] (.unified 1) .iif,
   fn "IsEmpty" 1 1 [.value] (.fixed .boolean) .isEmpty,
   fn "CoalesceEmpty" 1 varArgs [.value] (.unified 0) .coalesceEmpty]

/-- Text functions. -/
def textFunctions : List FunctionSpec :=
  [fn "Format" 2 2 [.value, .string] (.fixed .string) .format]

/-- Member functions. -/
def memberFunctions : List FunctionSpec :=
  [⟨"CurrentMember", .property, 1, 1, .fixed .member, [.hierarchy], .currentMember⟩,
   ⟨"DefaultMember", .property, 1, 1, .fixed .member, [.hierarchy], .defaultMember⟩,
   ⟨"Parent", .property, 1, 1, .fixed .member, [.member], .parent⟩,
   ⟨"Name", .property, 1, 1, .fixed .string, [.member], .name⟩,
   ⟨"()", .parentheses, 1, varArgs, .tuple, [.member], .tuple⟩]

/-- The name of the function standing for the evaluation context's slicer. -/
def slicerFunction : String := "$Slicer"

/-- Set functions. -/
def setFunctions : List FunctionSpec :=
  [⟨"Members", .property, 1, 1, .fixed (.set 1), [.level], .members⟩,
   ⟨"Children", .property, 1, 1, .fixed (.set 1), [.member], .children⟩,
   ⟨"\x7b\x7d", .braces, 0, varArgs, .braces, [.set], .braces⟩,
   fn "CrossJoin" 2 varArgs [.set] .crossJoin .crossJoin,
   fn "NonEmptyCrossJoin" 1 varArgs [.set] .crossJoin .nonEmptyCrossJoin,
   fn "Filter" 2 2 [.set, .boolean] (.setOf 0) .filter,
   fn "TopCount" 2 3 [.set, .integer, .numeric] (.setOf 0) .topCount,
   fn "BottomCount" 3 3 [.set, .integer, .numeric] (.setOf 0) .bottomCount,
   fn "Head" 1 2 [.set, .integer] (.setOf 0) .head,
   fn "Order" 2 3 [.set, .value, .symbol] (.setOf 0) .order,
   fn "Generate" 2 3 [.set, .set, .symbol] (.setOf 1) .generate,
   fn slicerFunction 0 0 [] (.fixed (.set 1)) .slicer]

/-- Statistics over sets. -/
def statisticalFunctions : List FunctionSpec :=
  let setValue : List Category := [.set, .numeric]
  let setYX : List Category := [.set, .numeric, .numeric]
  let float := Returns.fixed .float
  [fn "Count" 1 2 [.set, .symbol] (.fixed .integer) .count,
   fn "Sum" 1 2 setValue float .sum,
   fn "Avg" 1 2 setValue float .avg,
   fn "Min" 1 2 setValue float .min,
   fn "Max" 1 2 setValue float .max,
   fn "Median" 1 2 setValue float .median,
   fn "Percentile" 3 3 setYX float .percentile,
   fn "Var" 1 2 setValue float .var,
   fn "Variance" 1 2 setValue float .var,
   fn "VarP" 1 2 setValue float .varP,
   fn "VarianceP" 1 2 setValue float .varP,
   fn "Stdev" 1 2 setValue float .stdev,
   fn "Stddev" 1 2 setValue float .stdev,
   fn "StdevP" 1 2 setValue float .stdevP,
   fn "StddevP" 1 2 setValue float .stdevP,
   fn "LinRegSlope" 2 3 setYX float .linRegSlope,
   fn "LinRegIntercept" 2 3 setYX float .linRegIntercept,
   fn "LinRegR2" 2 3 setYX float .linRegR2,
   fn "LinRegVariance" 2 3 setYX float .linRegVariance,
   fn "LinRegPoint" 3 4 [.numeric, .set, .numeric, .numeric] float .linRegPoint,
   fn "Covariance" 2 3 setYX float .covariance,
   fn "CovarianceN" 2 3 setYX float .covarianceN,
   fn "Correlation" 2 3 setYX float .correlation,
   fn "Aggregate" 1 2 setValue (.fixed .scalar) .aggregate]

/-- The built-in table. -/
def builtins : FunctionTable :=
  ⟨operators ++ logicalFunctions ++ textFunctions ++ memberFunctions ++ setFunctions ++
    statisticalFunctions⟩

/-- ASCII upper case, the key functions are filed under. -/
def key (name : String) : String := name.map Char.toUpper

/-- Whether some function has this name. -/
def contains (t : FunctionTable) (name : String) : Bool :=
  t.specs.any fun s => key s.name == key name

/-- The text of a call signature in errors: `name(a, b)`, `<a>.name`, `<a op b>`, `op <a>`,
`{a, b}` or `(a, b)`. -/
def signature (name : String) (style : CallSyntax) (args : List Shape) : String :=
  let names := args.map Shape.name
  match style with
  | .property => "<" ++ ", ".intercalate names ++ ">." ++ name
  | .operator => "<" ++ (" " ++ name ++ " ").intercalate names ++ ">"
  | .unary => name ++ " <" ++ ", ".intercalate names ++ ">"
  | .braces => "\x7b" ++ ", ".intercalate names ++ "\x7d"
  | .parentheses => "(" ++ ", ".intercalate names ++ ")"
  | .function | .method => name ++ "(" ++ ", ".intercalate names ++ ")"

/-- The cheapest applicable overload of `name` written with `style`. -/
def resolve (t : FunctionTable) (name : String) (style : CallSyntax) (args : List Shape) :
    Except OlapError FunctionSpec :=
  let candidates := t.specs.filter fun s =>
    key s.name == key name && s.style == style && s.minArgs ≤ args.length &&
      args.length ≤ s.maxArgs
  let pick := fun (best : Option (FunctionSpec × Nat)) (spec : FunctionSpec) =>
    match spec.cost args, best with
    | none, _ => best
    | some c, none => some (spec, c)
    | some c, some (b, bc) => if c < bc then some (spec, c) else some (b, bc)
  let best := candidates.foldl pick none
  match best with
  | some (spec, _) => pure spec
  | none => throw (.noMatchingFunction name (signature name style args))

end FunctionTable

end OlapCalc
