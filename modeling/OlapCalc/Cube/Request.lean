import OlapCalc.Model.Render
import OlapCalc.Numeric.FloatText

/-!
Native requests: what the engine asks a relational backend to compute in one go.

A request names its operand member sources, the operation (a cross join, a top-count ranking or
a measure filter), the context constraint it runs under and whether empty rows are dropped.
Its plan text is a pseudo-SQL rendering used for logs and inspection.
-/

namespace OlapCalc

/-- A comparison operator of a native filter. -/
inductive CompareOp where
  | eq
  | ne
  | lt
  | le
  | gt
  | ge
deriving Repr, BEq, DecidableEq, Inhabited

namespace CompareOp

/-- The operator written as a symbol. -/
def ofSymbol? : String → Option CompareOp
  | "=" => some .eq
  | "<>" => some .ne
  | "<" => some .lt
  | "<=" => some .le
  | ">" => some .gt
  | ">=" => some .ge
  | _ => none

/-- The operator's symbol. -/
def symbol : CompareOp → String
  | .eq => "="
  | .ne => "<>"
  | .lt => "<"
  | .le => "<="
  | .gt => ">"
  | .ge => ">="

/-- Applies the operator to two floats with IEEE comparisons (any comparison with NaN is
false except `<>`). -/
def test (op : CompareOp) (l r : Float) : Bool :=
  match op with
  | .eq => l == r
  | .ne => !(l == r)
  | .lt => l < r
  | .le => l ≤ r
  | .gt => l > r
  | .ge => l ≥ r

/-- Whether an ordering of the left operand against the right one satisfies the operator. -/
def holds (op : CompareOp) (o : Ordering) : Bool :=
  match op with
  | .eq => o == .eq
  | .ne => o != .eq
  | .lt => o == .lt
  | .le => o != .gt
  | .gt => o == .gt
  | .ge => o != .lt

/-- The operator with its operands swapped. -/
def flip : CompareOp → CompareOp
  | .lt => .gt
  | .le => .ge
  | .gt => .lt
  | .ge => .le
  | op => op

end CompareOp

/-- Where the members of one operand come from. -/
inductive MemberSource where
  | level (l : LevelRef)
  | children (m : Member)
  | members (ms : List Member)
deriving Inhabited

namespace MemberSource

/-- The hierarchy the source ranges over. -/
def hierarchy? : MemberSource → Option Nat
  | .level l => some l.hierarchy
  | .children m => some m.hierarchy
  | .members ms => ms.head?.map Member.hierarchy

/-- The source as text: `L.Members`, `M.Children` or `{a, b}`. -/
def render : MemberSource → String
  | .level l => l.uniqueName ++ ".Members"
  | .children m => m.uniqueName ++ ".Children"
  | .members ms => "\x7b" ++ ", ".intercalate (ms.map Member.uniqueName) ++ "\x7d"

end MemberSource

/-- The operation of a native request. -/
inductive NativeOp where
  | crossJoin
  | topCount (count : Nat) (measure : Member)
  | filter (measure : Member) (op : CompareOp) (operand : Float)
deriving Inhabited

/-- The evaluation context as relational constraints: fixed members, disjunctions from the
slicer, and the measures whose data decides emptiness. -/
structure ContextConstraint where
  members : List Member := []
  slicer : List (List Member) := []
  measures : List Member := []
deriving Inhabited

/-- A request for native evaluation. -/
structure NativeRequest where
  op : NativeOp
  args : List MemberSource
  constraint : ContextConstraint
  nonEmpty : Bool
deriving Inhabited

namespace NativeRequest

/-- The pseudo-SQL plan text of a request. -/
def plan (r : NativeRequest) : String :=
  let select := "select " ++ " x ".intercalate (r.args.map MemberSource.render) ++ " from facts"
  let c := r.constraint
  let predicates := c.members.map Member.uniqueName ++
    c.slicer.map (fun anyOf => "(" ++ " or ".intercalate (anyOf.map Member.uniqueName) ++ ")")
  let whereText := if predicates.isEmpty then "" else " where " ++ " and ".intercalate predicates
  let opText :=
    match r.op with
    | .crossJoin => ""
    | .topCount count measure =>
      " order by " ++ measure.uniqueName ++ " desc limit " ++ toString count
    | .filter measure op operand =>
      " having " ++ measure.uniqueName ++ " " ++ op.symbol ++ " " ++ FloatText.display operand
  let nonEmptyText :=
    if r.nonEmpty then
      " non empty on (" ++ ", ".intercalate (c.measures.map Member.uniqueName) ++ ")"
    else ""
  select ++ whereText ++ opText ++ nonEmptyText

end NativeRequest

end OlapCalc
