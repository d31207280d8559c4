import OlapCalc.Eval.Query
import OlapCalc.Json.Parse

/-!
Answers of the request service, as JSON.

A request fails in one of three ways: the request itself is malformed (`badInput`), the engine
reports an error, or an engine invariant is broken by the request (`panic`, e.g. a savepoint
restored out of order). Values are written with their type made explicit: integers as
`{"int": n}`, floats as `{"float": x}` with non-finite floats spelled `"NaN"`, `"inf"` and
`"-inf"`, members, levels and hierarchies by name, tuples and sets as lists of member names.
-/

namespace OlapCalc.Service

/-- Why a request has no regular answer. -/
inductive Failure where
  | badInput (message : String)
  | engine (e : OlapError)
  | panic (message : String)
deriving Inhabited

/-- Computations of the service that may fail. -/
abbrev Outcome := Except Failure

/-- Runs an engine computation, reporting its error as an engine failure. -/
def engine {α : Type} : Except OlapError α → Outcome α
  | .ok a => pure a
  | .error e => throw (.engine e)

/-- Fails with a malformed-request message. -/
def reject {α : Type} (message : String) : Outcome α := throw (.badInput message)

/-- An engine error as an answer object. -/
def errorJson (e : OlapError) : Json :=
  .obj [("error", .str e.variant), ("kind", .str e.kindName), ("message", .str e.message)]

/-- A failure as an answer object. -/
def Failure.toJson : Failure → Json
  | .badInput m => .obj [("error", .str "bad_input"), ("message", .str m)]
  | .engine e => errorJson e
  | .panic m => .obj [("error", .str "panic"), ("message", .str m)]

/-- The JSON text of a value, as used inside messages: compact, keys sorted, the last of
duplicate keys kept. -/
def jsonText (j : Json) : String := (Json.canonical j).render

/-- A float in the explicit value form: a number, or the text of a non-finite float. -/
def floatJson (x : Float) : Json :=
  match FloatText.json x with
  | some _ => .float x
  | none => .str (FloatText.display x)

/-- A tuple as the list of its member names. -/
def tupleJson (t : Tuple) : Json := .arr (t.map fun m => .str m.uniqueName)

/-- A list of tuples. -/
def tuplesJson (ts : List Tuple) : Json := .arr (ts.map tupleJson)

/-- A list of member names. -/
def namesJson (ms : List Member) : Json := .arr (ms.map fun m => .str m.uniqueName)

/-- A value with its type made explicit. -/
def valueJson : Value → Json
  | .null => .null
  | .boolean b => .bool b
  | .integer n => .obj [("int", .int n)]
  | .float x => .obj [("float", floatJson x)]
  | .string s => .str s
  | .member m => .obj [("member", .str m.uniqueName)]
  | .tuple t => .obj [("tuple", tupleJson t)]
  | .set ts => .obj [("set", tuplesJson ts)]
  | .level l => .obj [("level", .str l.uniqueName)]
  | .hierarchy h => .obj [("hierarchy", .str h.name)]

/-- An optional natural as a number or `null`. -/
def optNat : Option Nat → Json
  | some n => .int n
  | none => .null

/-- An engine result, or its error object. -/
def resultJson {α : Type} (encode : α → Json) : Except OlapError α → Json
  | .ok a => encode a
  | .error e => errorJson e

/-- The lower-case name of a result style, as requests spell it. -/
def styleName : ResultStyle → String
  | .iterable => "iterable"
  | .list => "list"
  | .mutableList => "mutable"
  | .value => "value"

/-- The result style a request names. -/
def styleOfName? : String → Option ResultStyle
  | "iterable" => some .iterable
  | "list" => some .list
  | "mutable" => some .mutableList
  | "value" => some .value
  | _ => none

end OlapCalc.Service
