import OlapCalc.Json.Basic
import OlapCalc.Error

/-!
Engine options.

Every option has a default, so a partial document inherits what it does not mention. The
options govern native pushdown (which operators may be delegated, from which operand size on,
which calculated-measure formulas are harmless), the result limit, the depth of
calculated-member nesting and the query timeout.
-/

namespace OlapCalc

/-- What to do when an operator that only has a native implementation cannot be delegated. -/
inductive AlertMode where
  | silentFallback
  | warnAndFallback
  | error
deriving Repr, BEq, DecidableEq, Inhabited

/-- Formula shapes of calculated measures that do not prevent native evaluation. -/
inductive SafePattern where
  | storedMeasure
  | literal
  | conditional
  | isEmpty
  | arithmetic
deriving Repr, BEq, DecidableEq, Inhabited

namespace AlertMode

/-- All modes, in declaration order. -/
def all : List AlertMode := [.silentFallback, .warnAndFallback, .error]

/-- The configuration spelling. -/
def name : AlertMode → String
  | .silentFallback => "silent-fallback"
  | .warnAndFallback => "warn-and-fallback"
  | .error => "error"

end AlertMode

namespace SafePattern

/-- All patterns, in declaration order. -/
def all : List SafePattern := [.storedMeasure, .literal, .conditional, .isEmpty, .arithmetic]

/-- The configuration spelling. -/
def name : SafePattern → String
  | .storedMeasure => "stored-measure"
  | .literal => "literal"
  | .conditional => "conditional"
  | .isEmpty => "is-empty"
  | .arithmetic => "arithmetic"

/-- The name used when reporting a pattern that is not allowed. -/
def title : SafePattern → String
  | .storedMeasure => "StoredMeasure"
  | .literal => "Literal"
  | .conditional => "Conditional"
  | .isEmpty => "IsEmpty"
  | .arithmetic => "Arithmetic"

end SafePattern

/-- The engine options. `resultLimit = 0` means unlimited. -/
structure EngineConfig where
  nativeMinThreshold : Nat := 100
  resultLimit : Nat := 0
  alertNativeUnsupported : AlertMode := .silentFallback
  enableNativeCrossJoin : Bool := true
  enableNativeTopCount : Bool := true
  enableNativeFilter : Bool := true
  nativeSafePatterns : List SafePattern := [.storedMeasure, .literal, .conditional, .isEmpty]
  maxEvalDepth : Nat := 64
  queryTimeoutMs : Option Nat := none
deriving Repr, Inhabited

namespace EngineConfig

/-- The defaults with every native path switched off. -/
def interpretedOnly : EngineConfig :=
  { enableNativeCrossJoin := false, enableNativeTopCount := false, enableNativeFilter := false }

/-- Rejects a nesting limit of zero. -/
def validate (c : EngineConfig) : Except OlapError EngineConfig :=
  if c.maxEvalDepth == 0 then throw (.config "maxEvalDepth must be at least 1") else pure c

/-- Whether a formula pattern is allowed for native evaluation. -/
def allows (c : EngineConfig) (p : SafePattern) : Bool := c.nativeSafePatterns.contains p

/-- Whether `count` tuples break the result limit. -/
def exceedsResultLimit (c : EngineConfig) (count : Nat) : Bool :=
  c.resultLimit != 0 && count > c.resultLimit

/-- Whether the query timeout is zero, so that the first deadline check trips. -/
def expiresAtOnce (c : EngineConfig) : Bool := c.queryTimeoutMs == some 0

/-- The options as a JSON object with the configuration's own key names. -/
def toJson (c : EngineConfig) : Json :=
  .obj [
    ("nativeMinThreshold", .int c.nativeMinThreshold),
    ("resultLimit", .int c.resultLimit),
    ("alertNativeUnsupported", .str c.alertNativeUnsupported.name),
    ("enableNativeCrossJoin", .bool c.enableNativeCrossJoin),
    ("enableNativeTopCount", .bool c.enableNativeTopCount),
    ("enableNativeFilter", .bool c.enableNativeFilter),
    ("nativeSafePatterns", .arr (c.nativeSafePatterns.map fun p => .str p.name)),
    ("maxEvalDepth", .int c.maxEvalDepth),
    ("queryTimeoutMs", match c.queryTimeoutMs with
      | some ms => .int ms
      | none => .null)]

end EngineConfig

end OlapCalc
