import OlapCalc.Config.Basic
import OlapCalc.Model.Render

/-!
Calculated measures in the context of a native request.

A native request filters and aggregates stored data, so a calculated measure on the context
can only be pushed down when its formula is built from whitelisted patterns over stored
measures (`safeMeasures`), and, for a request that drops empty rows, when the measure is empty
exactly where one stored measure is (`emptinessMeasure`). Calculated measures may refer to each
other; nesting deeper than `maxFormulaDepth` is refused.
-/

namespace OlapCalc.FormulaCheck

/-- How deeply calculated measures may refer to each other. -/
def maxFormulaDepth : Nat := 16

/-- Fails unless the configuration whitelists `pattern`; `what` names the offending part. -/
def require (config : EngineConfig) (pattern : SafePattern) (what : String) :
    Except String Unit :=
  if config.allows pattern then pure ()
  else throw (what ++ " uses " ++ pattern.title ++ ", which is not whitelisted")

/-- The safe pattern a call belongs to, by upper-cased name and syntax. -/
def callPattern (name : String) (style : CallSyntax) : Option SafePattern :=
  match name.map Char.toUpper, style with
  | "IIF", .function => some .conditional
  | "AND", .operator | "OR", .operator => some .conditional
  | "NOT", .unary => some .conditional
  | "=", .operator | "<>", .operator | "<", .operator | "<=", .operator | ">", .operator
  | ">=", .operator => some .conditional
  | "ISEMPTY", .function => some .isEmpty
  | "+", .operator | "-", .operator | "*", .operator | "/", .operator | "-", .unary =>
    some .arithmetic
  | _, _ => none

/-- Adds a stored measure to the list unless it is already there. -/
def addMeasure (out : List Member) (m : Member) : List Member :=
  if out.contains m then out else out ++ [m]

mutual

/-- Checks a measure referenced at nesting `depth`; stored measures are collected in `out`.
`fuel` bounds the number of nested checks. -/
def checkMember (config : EngineConfig) : Nat → Nat → Member → List Member →
    Except String (List Member)
  | 0, _, m, _ => throw (m.uniqueName ++ " nests calculated measures too deeply")
  | fuel + 1, depth, m, out =>
    if m.isStoredMeasure then do
      require config .storedMeasure m.uniqueName
      pure (addMeasure out m)
    else
      match m.formula, m.isMeasure with
      | some (e, _), true =>
        if depth ≥ maxFormulaDepth then
          throw (m.uniqueName ++ " nests calculated measures too deeply")
        else checkExp config fuel (depth + 1) e out
      | _, _ => throw (m.uniqueName ++ " is not a measure")

/-- Checks an expression of a formula at nesting `depth`. -/
def checkExp (config : EngineConfig) : Nat → Nat → Exp → List Member →
    Except String (List Member)
  | 0, _, e, _ => throw (e.render ++ " is not safe for native evaluation")
  | fuel + 1, depth, e, out =>
    match e with
    | .literal _ => do
      require config .literal e.render
      pure out
    | .member m =>
      if m.isMeasure then checkMember config fuel depth m out
      else throw (e.render ++ " is not safe for native evaluation")
    | .call name style args =>
      match callPattern name style with
      | none => throw (e.render ++ " is not safe for native evaluation")
      | some pattern => do
        require config pattern e.render
        checkArgs config fuel depth args out
    | _ => throw (e.render ++ " is not safe for native evaluation")

/-- Checks call arguments in order. -/
def checkArgs (config : EngineConfig) : Nat → Nat → List Exp → List Member →
    Except String (List Member)
  | _, _, [], out => pure out
  | 0, _, e :: _, _ => throw (e.render ++ " is not safe for native evaluation")
  | fuel + 1, depth, e :: rest, out => do
    let out ← checkExp config fuel depth e out
    checkArgs config fuel depth rest out

end

/-- The fuel for formula checks: far more nested checks than any formula has. -/
def checkFuel : Nat := 1000000

/-- Checks a calculated measure against the whitelisted patterns and returns the stored
measures it reads, in first-use order. -/
def safeMeasures (config : EngineConfig) (m : Member) : Except String (List Member) :=
  checkMember config checkFuel 0 m []

mutual

/-- The stored measure a measure is empty together with, if there is one. -/
def memberEmptiness : Nat → Nat → Member → Option Member
  | 0, _, _ => none
  | fuel + 1, depth, m =>
    if m.isStoredMeasure then some m
    else
      match m.formula, m.isMeasure with
      | some (e, _), true =>
        if depth ≥ maxFormulaDepth then none else expEmptiness fuel (depth + 1) e
      | _, _ => none

/-- The stored measure an expression is empty together with: a measure reference, or an `IIf`
whose two branches share one. -/
def expEmptiness : Nat → Nat → Exp → Option Member
  | 0, _, _ => none
  | fuel + 1, depth, e =>
    match e with
    | .member m => if m.isMeasure then memberEmptiness fuel depth m else none
    | .call name .function [_, whenTrue, whenFalse] =>
      if Hierarchy.lowerAscii name == "iif" then do
        let a ← expEmptiness fuel depth whenTrue
        let b ← expEmptiness fuel depth whenFalse
        if a == b then some a else none
      else none
    | _ => none

end

/-- The stored measure a calculated measure is empty together with, cell for cell. A literal
branch, or branches following different measures, can be empty where the stored data is not. -/
def emptinessMeasure (m : Member) : Except String Member :=
  if m.isStoredMeasure then pure m
  else
    match m.formula, m.isMeasure with
    | some (e, _), true =>
      match expEmptiness checkFuel 1 e with
      | some s => pure s
      | none => throw (m.uniqueName ++ " can be empty where its stored measures are not")
    | _, _ => throw (m.uniqueName ++ " is not a measure")

end OlapCalc.FormulaCheck
