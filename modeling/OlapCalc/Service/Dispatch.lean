import OlapCalc.Service.Inspect

/-!
The request service: one JSON request in, one JSON answer out.

A request names its operation in `op`; an unknown operation, or a line that is not JSON, is a
malformed request. Every failure becomes an answer object, so each line gets exactly one answer.
-/

namespace OlapCalc.Service

/-- Answers a request. -/
def answer (req : Json) : Json :=
  let op :=
    match req.get? "op" with
    | some (.str s) => s
    | _ => ""
  let result : Outcome Json :=
    match op with
    | "eval" => evalRequest req
    | "set" => setRequest req
    | "query" => queryRequest req
    | "evaluator" => evaluatorRequest req
    | "cube" => cubeRequest req
    | "format" => formatRequest req
    | "config" => configRequest req
    | "render" => renderRequest req
    | "value" => valueRequest req
    | "shape" => shapeRequest req
    | "model" => modelRequest req
    | "resolve" => resolveRequest req
    | other => reject ("unknown op " ++ other)
  match result with
  | .ok j => j
  | .error f => f.toJson

/-- Answers one line of input with one line of output. -/
def handleLine (line : String) : String :=
  match JsonParse.parse line with
  | .ok req => (answer req).render
  | .error msg => (Failure.badInput ("invalid JSON: " ++ msg)).toJson.render

end OlapCalc.Service
