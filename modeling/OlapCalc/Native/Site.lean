import OlapCalc.Cube.Request
import OlapCalc.Value.Basic

/-!
Static eligibility of set operators for native evaluation.

A `CrossJoin`, `TopCount` or `Filter` call can be computed by one backend request when its
operands are simple member sets: the members of a level, the children of a stored member, or
an enumeration of members of one level of one dimension. Calculated members in an enumeration
are kept aside, to be merged into the backend's rows afterwards. `TopCount` needs a literal
count and, if given, a stored ranking measure; `Filter` needs a comparison of a stored measure
with a number. Everything here depends on the expression alone and is decided once, at compile
time; a reason is kept for every expression that does not qualify.
-/

namespace OlapCalc

/-- How the operand of `TopCount` or `Filter` treats empty tuples on its own. -/
inductive OperandKind where
  /-- Level members, children or an enumeration: never filtered. -/
  | simple
  /-- `CrossJoin`: filtered when the context asks for non-empty results. -/
  | crossJoin
  /-- `NonEmptyCrossJoin`: always filtered. -/
  | nonEmptyCrossJoin
deriving Repr, BEq, DecidableEq, Inhabited

/-- One operand of a native operator: the stored members it ranges over and the calculated
members to merge in afterwards. -/
structure ArgSource where
  hierarchy : Nat
  stored : Option MemberSource
  calculated : List Member
deriving Inhabited

/-- What a native request computes. A top count without a measure ranks by the current
measure. -/
inductive NativeTemplate where
  | crossJoin
  | topCount (count : Nat) (measure : Option Member) (operand : OperandKind)
  | filter (measure : Member) (op : CompareOp) (operand : Float) (kind : OperandKind)
deriving Inhabited

/-- A statically eligible native plan. -/
structure NativePlan where
  template : NativeTemplate
  sources : List ArgSource
deriving Inhabited

/-- The native side of an operator call: its text (which also identifies it while it is being
resolved), its plan or the reason there is none, and whether the operator has no other
implementation. -/
structure NativeSite where
  key : String
  plan : Except String NativePlan
  required : Bool
deriving Inhabited

namespace NativeSite

/-- The reason an expression is not a simple member set. -/
def notSimple (e : Exp) : String := e.render ++ " is not a simple member set"

/-- An enumeration of members: one dimension hierarchy, stored members all from one level. -/
def enumerated (whole : Exp) (items : List Exp) : Except String ArgSource := do
  let step := fun (acc : Option Nat × List Member × List Member) (item : Exp) => do
    let (hierarchy, stored, calculated) := acc
    let .member m := item
      | throw (whole.render ++ " enumerates something other than members")
    if m.isMeasure then throw (whole.render ++ " mixes measures into a dimension set")
    let hierarchy ← match hierarchy with
      | none => pure (some m.hierarchy)
      | some h =>
        if h != m.hierarchy then throw (whole.render ++ " enumerates members of several hierarchies")
        else pure (some h)
    if m.isCalculated then pure (hierarchy, stored, calculated ++ [m])
    else pure (hierarchy, stored ++ [m], calculated)
  let (hierarchy, stored, calculated) ← items.foldlM step (none, [], [])
  if let first :: _ := stored then
    if stored.any (·.depth != first.depth) then
      throw (whole.render ++ " enumerates members from different levels")
  let some h := hierarchy | throw "empty set"
  pure ⟨h, if stored.isEmpty then none else some (.members stored), calculated⟩

mutual

/-- A simple member set: `L.Members`, `m.Children` for a stored `m`, an enumeration, a single
member, or braces around one simple call. -/
def simpleSource : Exp → Except String ArgSource
  | e@(.call name .property [.level l]) =>
    if Hierarchy.lowerAscii name == "members" then pure ⟨l.hierarchy, some (.level l), []⟩
    else throw (notSimple e)
  | e@(.call name .property [.member m]) =>
    if Hierarchy.lowerAscii name == "children" && !m.isCalculated then
      pure ⟨m.hierarchy, some (.children m), []⟩
    else throw (notSimple e)
  | e@(.call _ .braces items) => bracedSource e items
  | e@(.member _) => enumerated e [e]
  | e => throw (notSimple e)

/-- The items of a braced set `whole`: one call stands for itself, anything else is an
enumeration. -/
def bracedSource (whole : Exp) : List Exp → Except String ArgSource
  | [single] => if single matches .call .. then simpleSource single else enumerated whole [single]
  | items => enumerated whole items

end

mutual

/-- The sources of one `CrossJoin` operand; nested `CrossJoin` calls are flattened. -/
def flatten : Exp → Except String (List ArgSource)
  | e@(.call name .function args) =>
    if Exp.sameName name "CrossJoin" then flattenAll args else do pure [← simpleSource e]
  | e => do pure [← simpleSource e]

/-- The sources of several operands, in order. -/
def flattenAll : List Exp → Except String (List ArgSource)
  | [] => pure []
  | a :: rest => do
    let first ← flatten a
    let others ← flattenAll rest
    pure (first ++ others)

end

/-- Fails when two sources range over the same hierarchy. -/
def disjoint (sources : List ArgSource) : Except String Unit :=
  go [] sources
where
  go (seen : List Nat) : List ArgSource → Except String Unit
    | [] => pure ()
    | s :: rest =>
      if seen.contains s.hierarchy then throw "operands share a hierarchy"
      else go (s.hierarchy :: seen) rest

/-- The sources of the operands of a `CrossJoin` call. -/
def crossJoinSources (args : List Exp) : Except String (List ArgSource) := do
  let sources ← flattenAll args
  disjoint sources
  pure sources

/-- The sources of a set operand and how it treats empty tuples. -/
def memberSources (e : Exp) : Except String (List ArgSource × OperandKind) :=
  match e with
  | .call name .function args =>
    if Exp.sameName name "CrossJoin" then do pure (← crossJoinSources args, .crossJoin)
    else if Exp.sameName name "NonEmptyCrossJoin" then
      do pure (← crossJoinSources args, .nonEmptyCrossJoin)
    else do pure ([← simpleSource e], .simple)
  | _ => do pure ([← simpleSource e], .simple)

/-- Fails when an operand enumerates calculated members. -/
def noCalculated (sources : List ArgSource) : Except String Unit :=
  if sources.any (!·.calculated.isEmpty) then
    throw "calculated members cannot be ranked or filtered natively"
  else pure ()

/-- A literal count: negative counts are zero, fractional ones are not literal counts. -/
def literalCount (e : Exp) : Except String Nat :=
  match e with
  | .literal (.integer n) => pure n.toNat
  | .literal (.number x) =>
    if Binary64.isIntegral x then pure (Binary64.toNat64 (Binary64.fmax x Binary64.zero))
    else throw ("count " ++ e.render ++ " is not a literal")
  | _ => throw ("count " ++ e.render ++ " is not a literal")

/-- A stored measure referenced directly. -/
def storedMeasure (e : Exp) : Except String Member :=
  match e with
  | .member m => if m.isStoredMeasure then pure m else throw (e.render ++ " is not a stored measure")
  | _ => throw (e.render ++ " is not a stored measure")

/-- A numeric literal's value. -/
def literalNumber : Literal → Option Float
  | .number x => some x
  | .integer n => some (Binary64.ofInt n)
  | _ => none

/-- `measure op number` or `number op measure`, normalized to the measure on the left. -/
def measureComparison (e : Exp) : Except String (Member × CompareOp × Float) :=
  let notSimple := e.render ++ " is not a comparison of a stored measure with a number"
  match e with
  | .call name .operator [left, right] =>
    match CompareOp.ofSymbol? name with
    | none => throw notSimple
    | some op =>
      match left, right with
      | .member m, .literal lit =>
        if m.isStoredMeasure then
          match literalNumber lit with
          | some x => pure (m, op, x)
          | none => throw notSimple
        else throw notSimple
      | .literal lit, .member m =>
        if m.isStoredMeasure then
          match literalNumber lit with
          | some x => pure (m, op.flip, x)
          | none => throw notSimple
        else throw notSimple
      | _, _ => throw notSimple
  | _ => throw notSimple

/-- The native site of `CrossJoin(args)`. -/
def ofCrossJoin (e : Exp) (args : List Exp) : NativeSite :=
  ⟨e.render, (crossJoinSources args).map (⟨.crossJoin, ·⟩), false⟩

/-- The native site of `TopCount(set, count [, measure])`; without a measure the operator has
no other implementation. -/
def ofTopCount (e set count : Exp) (measure : Option Exp) : NativeSite :=
  let plan : Except String NativePlan := do
    let (sources, operand) ← memberSources set
    noCalculated sources
    let count ← literalCount count
    let measure ← match measure with
      | some m => some <$> storedMeasure m
      | none => pure none
    pure ⟨.topCount count measure operand, sources⟩
  ⟨e.render, plan, measure.isNone⟩

/-- The native site of `Filter(set, condition)`. -/
def ofFilter (e set condition : Exp) : NativeSite :=
  let plan : Except String NativePlan := do
    let (sources, operand) ← memberSources set
    noCalculated sources
    let (measure, op, x) ← measureComparison condition
    pure ⟨.filter measure op x operand, sources⟩
  ⟨e.render, plan, false⟩

end NativeSite

end OlapCalc
