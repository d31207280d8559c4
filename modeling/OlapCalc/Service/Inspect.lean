import OlapCalc.Service.Session

/-!
Requests that look at single pieces of the engine: number formatting (`format`), the
configuration reader (`config`), expression text and typing (`render`), value conversions
(`value`), shapes and categories (`shape`), the cube model (`model`) and overload resolution
(`resolve`).
-/

namespace OlapCalc.Service

/-- The value a literal, member, level or hierarchy expression stands for; a symbol stands for
its text, a parenthesized list of members for a tuple, and a braced list of members and tuples
for a set. -/
def valueOfExp : Exp → Outcome Value
  | .literal lit => pure lit.value
  | .member m => pure (.member m)
  | .level l => pure (.level l)
  | .hierarchy h => pure (.hierarchy h)
  | .symbol s => pure (.string s)
  | e@(.call _ .parentheses args) => do pure (.tuple (← args.mapM (memberOf e)))
  | e@(.call _ .braces items) => do
    let tuples ← items.mapM fun item =>
      match item with
      | .member m => pure [m]
      | .call _ .parentheses args => args.mapM (memberOf e)
      | _ => reject ("unsupported value " ++ e.render)
    pure (.set tuples)
  | e => reject ("unsupported value " ++ e.render)
where
  memberOf (whole : Exp) : Exp → Outcome Member
    | .member m => pure m
    | _ => reject ("unsupported value " ++ whole.render)

/-- A conversion result: the converted value, `null` for none, or the error. -/
def conversionJson {α : Type} (encode : α → Json) : Except OlapError (Option α) → Json
  | .ok (some a) => encode a
  | .ok none => .null
  | .error e => errorJson e

/-- `value`: the type, display text and scalar views of values. -/
def valueRequest (req : Json) : Outcome Json := do
  let s ← setupOf req
  let items ← listField req "values"
  let entries ← items.mapM fun item => do
    let e ← s.exp item
    let v ← valueOfExp e
    pure (Json.obj [("type", .str v.typeName), ("is_null", .bool v.isNull),
      ("is_literal", .bool e.isLiteral), ("display", .str v.display),
      ("number", conversionJson floatJson v.toNumber),
      ("integer", conversionJson Json.int v.toInteger),
      ("boolean", conversionJson Json.bool v.toBoolean),
      ("text", conversionJson Json.str v.toText)])
  pure (.obj [("values", .arr entries)])

/-- A literal or member expression as a value to format. -/
def formattable (e : Exp) : Outcome Value :=
  match e with
  | .literal lit => pure lit.value
  | .member m => pure (.member m)
  | other => reject ("unsupported value " ++ other.render)

/-- `format`: formats values with a pattern. -/
def formatRequest (req : Json) : Outcome Json := do
  let s ← setupOf req
  let pattern ← stringField req "pattern"
  let formatter := Formatter.ofPattern pattern
  let texts ← (← listField req "values").mapM fun item => do
    let v ← formattable (← s.exp item)
    pure (Json.str (formatter.format v))
  pure (.obj [("texts", .arr texts)])

/-- `config`: reads a configuration text. -/
def configRequest (req : Json) : Outcome Json := do
  let text ← stringField req "json"
  let config ← engine (EngineConfig.ofText text)
  pure (.obj [("config", config.toJson), ("timeout_set", .bool config.queryTimeoutMs.isSome)])

/-- `render`: the text of an expression and its natural shape. -/
def renderRequest (req : Json) : Outcome Json := do
  let s ← setupOf req
  let e ← s.exp ((req.get? "exp").getD .null)
  pure (.obj [("text", .str e.render),
    ("type", resultJson (fun sh => .str sh.name) (FunctionTable.builtins.typeOf e))])

/-- What a shape reports: its name, category, arity, whether it is a scalar, and what it
becomes for each category. -/
def shapeJson (sh : Shape) : Json :=
  .obj [("display", .str sh.name), ("category", .str sh.category.name),
    ("arity", optNat sh.arity?), ("is_scalar", .bool sh.isScalar),
    ("converted_to", .obj (Category.all.map fun c => (c.name, .str (sh.convertedTo c).name)))]

/-- `shape`: shapes and categories. -/
def shapeRequest (req : Json) : Outcome Json := do
  let shapes ← (← listField req "shapes").mapM fun item =>
    match item with
    | .str name =>
      match Shape.ofName? name with
      | some sh => pure (shapeJson sh)
      | none => reject ("unknown shape " ++ jsonText item)
    | other => reject ("unknown shape " ++ jsonText other)
  let categories := Category.all.map fun c =>
    Json.obj [("display", .str c.name), ("is_scalar", .bool c.isScalar)]
  pure (.obj [("shapes", .arr shapes), ("categories", .arr categories)])

/-- The name of a member's kind. -/
def kindName (m : Member) : String :=
  match m.kind with
  | .all => "all"
  | .regular => "regular"
  | .measure _ => "measure"
  | .calculated .. => "calculated"

/-- The name of an aggregator. -/
def aggregatorName : Aggregator → String
  | .sum => "Sum"
  | .count => "Count"
  | .min => "Min"
  | .max => "Max"

/-- Everything a member reports about itself. -/
def memberJson (m : Member) : Json :=
  let formula :=
    match m.formula with
    | some (e, order) =>
      Json.obj [("debug", .str ("Formula \x7b expression: " ++ debugString e.render ++
          ", solve_order: " ++ toString order ++ " \x7d")),
        ("expression", .str e.render), ("solve_order", .int order)]
    | none => .null
  .obj [("unique_name", .str m.uniqueName), ("name", .str m.name),
    ("display", .str m.uniqueName), ("debug", .str m.uniqueName),
    ("hierarchy", .int m.hierarchy), ("depth", .int m.depth), ("ordinal", .int m.ordinal),
    ("parent", (m.parent.map fun p => Json.str p.uniqueName).getD .null),
    ("kind", .str (kindName m)), ("is_all", .bool m.isAll), ("is_measure", .bool m.isMeasure),
    ("is_calculated", .bool m.isCalculated), ("is_stored_measure", .bool m.isStoredMeasure),
    ("aggregator", (m.aggregator.map fun a => Json.str (aggregatorName a)).getD .null),
    ("formula", formula)]

/-- Everything a hierarchy reports about itself, with its equality to each hierarchy of the
cube. -/
def hierarchyJson (cube : Cube) (h : Hierarchy) : Json :=
  let levels := (List.range h.levelCount).filterMap fun d =>
    (h.level d).map fun l =>
      Json.obj [("unique_name", .str l.uniqueName), ("depth", .int l.depth),
        ("hierarchy", .int l.hierarchy)]
  .obj [("name", .str h.name), ("debug", .str ("[" ++ h.name ++ "]")), ("id", .int h.id),
    ("level_count", .int h.levelCount), ("levels", .arr levels),
    ("is_measures", .bool h.isMeasures), ("is_ragged", .bool h.isRagged),
    ("default_member", .str h.defaultMember.uniqueName),
    ("equals", .arr (cube.hierarchies.map fun other => .bool (other == h)))]

/-- Reads a level given as `{"level": ...}` or `{"raw": ...}`. -/
def modelLevel (cube : Cube) (j : Json) : Outcome LevelRef :=
  match j.get? "level", j.get? "raw" with
  | some l, _ => levelOf cube l
  | none, some l => rawLevelOf l
  | none, none => reject ("bad level " ++ jsonText j)

/-- Counts levels up to equality of hierarchy and depth. -/
def distinctLevels (ls : List LevelRef) : Nat :=
  (ls.foldl (fun (acc : List LevelRef) l => if acc.contains l then acc else acc ++ [l]) []).length

/-- What a tuple built from parts reports. -/
def tupleReport (cube : Cube) (parts : List Tuple) : Json :=
  let t := parts.flatten
  let equalParts := (parts.zip (parts.drop 1)).map fun (a, b) => Json.bool (a == b)
  .obj [("concat", tupleJson t), ("debug", .str (Tuple.debug t)), ("arity", .int t.length),
    ("member_for", .arr ((List.range cube.hierarchies.length).map fun h =>
      ((Tuple.memberFor t h).map fun m => Json.str m.uniqueName).getD .null)),
    ("equal_parts", .arr equalParts)]

/-- `model`: members, ancestry, hierarchies, levels and tuples of the cube. -/
def modelRequest (req : Json) : Outcome Json := do
  let s ← setupOf req
  let cube := s.scope.cube
  let name := fun (j : Json) =>
    match j with
    | .str n => s.member n
    | other => reject ("no member " ++ jsonText other)
  let members ← (← listField req "members").mapM name
  let ancestry ← (← listField req "ancestor").mapM fun pair =>
    match pair with
    | .arr [a, b] => do
      let a ← name a
      let b ← name b
      pure (Json.obj [("is_ancestor_or_self", .bool (a.isAncestorOrSelf b)), ("equal", .bool (a == b))])
    | other => reject ("bad pair " ++ jsonText other)
  let hierarchies ← (← listField req "hierarchies").mapM (hierarchyOf cube)
  let levels ← (← listField req "levels").mapM (modelLevel cube)
  let tuples ← (← listField req "tuples").mapM fun parts =>
    match parts with
    | .arr parts => do
      let parts ← parts.mapM fun part =>
        match part with
        | .arr names => s.members names
        | other => reject ("bad tuple " ++ jsonText other)
      pure (tupleReport cube parts)
    | other => reject ("bad tuple " ++ jsonText other)
  pure (.obj [("members", .arr (members.map memberJson)), ("ancestor", .arr ancestry),
    ("hierarchies", .arr (hierarchies.map (hierarchyJson cube))),
    ("levels", .arr (levels.map fun l => .str l.uniqueName)),
    ("distinct_levels", .int (distinctLevels levels)), ("tuples", .arr tuples)])

/-- `resolve`: function lookup and overload resolution in a table. -/
def resolveRequest (req : Json) : Outcome Json := do
  let table :=
    match req.get? "table" with
    | some (.str "empty") => FunctionTable.empty
    | _ => FunctionTable.builtins
  let contains ← (← listField req "contains").mapM fun item =>
    match item with
    | .str n => pure (Json.bool (table.contains n))
    | other => reject ("bad name " ++ jsonText other)
  let resolved ← (← listField req "calls").mapM fun call => do
    let fname ← stringField call "name"
    let style ← match call.field? "syntax" with
      | none => pure .function
      | some (.str text) =>
        match syntaxOfName? text with
        | some st => pure st
        | none => reject ("unknown syntax " ++ jsonText (.str text))
      | some other => reject ("unknown syntax " ++ jsonText other)
    let shapes ← (← listField call "shapes").mapM fun item =>
      match item with
      | .str n =>
        match Shape.ofName? n with
        | some sh => pure sh
        | none => reject ("unknown shape " ++ jsonText item)
      | other => reject ("unknown shape " ++ jsonText other)
    pure (resultJson (fun (spec : FunctionSpec) => Json.obj [("debug", .str spec.debug),
        ("arg_types", .arr ((List.range shapes.length).map fun i => .str (spec.argType i).name))])
      (table.resolve fname style shapes))
  pure (.obj [("contains", .arr contains), ("resolved", .arr resolved),
    ("compiler_has_sum", .bool (table.contains "Sum")),
    ("engine_has_sum", .bool (FunctionTable.builtins.contains "Sum"))])

end OlapCalc.Service
