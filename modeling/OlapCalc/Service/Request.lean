import OlapCalc.Service.Answer
import OlapCalc.Cube.Presets
import OlapCalc.Config.Decode

/-!
Reading requests.

A request names a cube (a preset or a specification), a configuration, calculated members and
expressions in a JSON form. Member names are resolved against the request's calculated members
first and then against the cube; every name the cube resolves is remembered, because the cube
keeps a lookup cache whose size is observable. Anything that cannot be read is a malformed
request, reported before any evaluation.
-/

namespace OlapCalc.Service

/-- Reading that remembers the names the cube resolved, in first-lookup order. -/
abbrev Reading := StateT (List String) Outcome

/-- Fails with a malformed-request message. -/
def Reading.reject {α : Type} (message : String) : Reading α := throw (.badInput message)

/-- Runs a service computation while reading. -/
def Reading.lift {α : Type} (o : Outcome α) : Reading α := StateT.lift o

/-- What member names resolve against: the cube and the calculated members defined so far. -/
structure Scope where
  cube : Cube
  calculated : List Member := []

/-- Looks a name up in the cube, caching it on success. -/
def lookupInCube (cube : Cube) (name : String) : Reading (Option Member) := do
  match cube.resolve? name with
  | some m =>
    modify fun names => if names.contains name then names else names ++ [name]
    pure (some m)
  | none => pure none

/-- Resolves a unique name: calculated members first, then the cube. -/
def Scope.member (s : Scope) (name : String) : Reading Member := do
  match s.calculated.find? (·.uniqueName == name) with
  | some m => pure m
  | none =>
    match ← lookupInCube s.cube name with
    | some m => pure m
    | none => Reading.reject ("no member " ++ name)

/-- The string of a field, or a malformed-request failure naming the field. -/
def stringField (j : Json) (key : String) : Outcome String :=
  match j.get? key with
  | some (.str s) => pure s
  | other => reject (key ++ " must be a string, got " ++ jsonText (other.getD .null))

/-- The items of a list field; absent or `null` is the empty list. -/
def listField (j : Json) (key : String) : Outcome (List Json) :=
  match j.field? key with
  | none => pure []
  | some (.arr items) => pure items
  | some other => reject (key ++ " must be a list, got " ++ jsonText other)

/-- A boolean field; absent or `null` is `false`. -/
def flagField (j : Json) (key : String) : Outcome Bool :=
  match j.field? key with
  | none => pure false
  | some (.bool b) => pure b
  | some other => reject (key ++ " must be a boolean, got " ++ jsonText other)

/-- A hierarchy named by its name or its id. -/
def hierarchyOf (cube : Cube) (j : Json) : Outcome Hierarchy :=
  let found :=
    match j with
    | .str name => cube.hierarchies.find? (·.name == name)
    | .int n => if n ≥ 0 then cube.hierarchy? n.toNat else none
    | _ => none
  match found with
  | some h => pure h
  | none => reject ("no hierarchy " ++ jsonText j)

/-- A level given as `[hierarchy, depth or level name]`. -/
def levelOf (cube : Cube) (j : Json) : Outcome LevelRef := do
  match j with
  | .arr [h, d] =>
    let hier ← hierarchyOf cube h
    let found :=
      match d with
      | .int n => if n ≥ 0 then hier.level n.toNat else none
      | .str name => hier.levelByName name
      | _ => none
    match found with
    | some l => pure l
    | none => reject ("no level " ++ jsonText j)
  | _ => reject ("no level " ++ jsonText j)

/-- A level reference built directly from `[hierarchy id, depth, unique name]`. -/
def rawLevelOf (j : Json) : Outcome LevelRef :=
  match j with
  | .arr [.int h, .int d, .str name] =>
    if h ≥ 0 && d ≥ 0 then pure ⟨h.toNat, d.toNat, name⟩ else reject ("bad level " ++ jsonText j)
  | _ => reject ("bad level " ++ jsonText j)

/-- A number given as a JSON number or as `"NaN"`, `"inf"` or `"-inf"`. -/
def numberOf (j : Json) : Outcome Float :=
  match j with
  | .int n => pure (Binary64.ofInt n)
  | .float x => pure x
  | .str "NaN" => pure Binary64.nan
  | .str "inf" => pure Binary64.infinity
  | .str "-inf" => pure Binary64.negInfinity
  | other => reject ("bad number " ++ jsonText other)

/-- The call syntax a general call names. -/
def syntaxOfName? : String → Option CallSyntax
  | "function" => some .function
  | "property" => some .property
  | "method" => some .method
  | "infix" => some .operator
  | "prefix" => some .unary
  | "braces" => some .braces
  | "parentheses" => some .parentheses
  | _ => none

/-- The literal of a JSON scalar: integer tokens within 64 bits are integers, other numbers
are floats. -/
def literalOf? : Json → Option Literal
  | .null => some .null
  | .bool b => some (.boolean b)
  | j@(.int n) =>
    match j.asInt64? with
    | some _ => some (.integer n)
    | none => some (.number (Binary64.ofInt n))
  | .float x => some (.number x)
  | .str s => some (.string s)
  | _ => none

/-- The nesting bound of expressions; the JSON reader nests at most 128 deep. -/
def expFuel : Nat := 256

mutual

/-- Reads an expression. Object forms are recognized by the first key present, in a fixed
order. -/
def expOf (s : Scope) : Nat → Json → Reading Exp
  | 0, j => Reading.reject ("unknown expression " ++ jsonText j)
  | fuel + 1, j =>
    match literalOf? j with
    | some lit => pure (.literal lit)
    | none =>
      match j with
      | .obj _ =>
        if let some x := j.get? "num" then do
          pure (.literal (.number (← Reading.lift (numberOf x))))
        else if let some n := j.get? "int" then
          match n.asInt64? with
          | some n => pure (.literal (.integer n))
          | none => Reading.reject ("bad integer " ++ jsonText n)
        else if let some m := j.get? "m" then
          match m with
          | .str name => do pure (.member (← s.member name))
          | other => Reading.reject ("no member " ++ jsonText other)
        else if let some l := j.get? "level" then do
          pure (.level (← Reading.lift (levelOf s.cube l)))
        else if let some l := j.get? "rawlevel" then do
          pure (.level (← Reading.lift (rawLevelOf l)))
        else if let some h := j.get? "h" then do
          pure (.hierarchy (← Reading.lift (hierarchyOf s.cube h)))
        else if let some sym := j.get? "sym" then
          match sym with
          | .str text => pure (.symbol text)
          | other => Reading.reject ("bad symbol " ++ jsonText other)
        else if let some name := j.get? "f" then call s fuel name .function (j.get? "args")
        else if let some name := j.get? "p" then do
          match j.get? "of" with
          | some target => do
            let target ← expOf s fuel target
            pure (.call (← nameOf name) .property [target])
          | none => pure (.call (← nameOf name) .property [])
        else if let some name := j.get? "meth" then call s fuel name .method (j.get? "args")
        else if let some name := j.get? "op" then call s fuel name .operator (j.get? "args")
        else if let some name := j.get? "pre" then do
          match j.get? "arg" with
          | some arg => do
            let arg ← expOf s fuel arg
            pure (.call (← nameOf name) .unary [arg])
          | none => pure (.call (← nameOf name) .unary [])
        else if let some items := j.get? "set" then call s fuel (.str "\x7b\x7d") .braces (some items)
        else if let some items := j.get? "tuple" then
          call s fuel (.str "()") .parentheses (some items)
        else if let some name := j.get? "call" then
          match j.field? "syntax" with
          | none => call s fuel name .function (j.get? "args")
          | some (.str text) =>
            match syntaxOfName? text with
            | some style => call s fuel name style (j.get? "args")
            | none => Reading.reject ("unknown syntax " ++ jsonText (.str text))
          | some other => Reading.reject ("unknown syntax " ++ jsonText other)
        else Reading.reject ("unknown expression " ++ jsonText j)
      | _ => Reading.reject ("unknown expression " ++ jsonText j)

/-- Reads a call with its argument list. -/
def call (s : Scope) : Nat → Json → CallSyntax → Option Json → Reading Exp
  | 0, _, _, _ => Reading.reject "expression nested too deeply"
  | fuel + 1, name, style, args => do
    let name ← nameOf name
    let items ← match args with
      | none | some .null => pure []
      | some (.arr items) => pure items
      | some other => Reading.reject ("args must be a list, got " ++ jsonText other)
    -- the arguments are read in order, each one level deeper, however many there are
    pure (.call name style (← items.mapM (expOf s fuel)))

/-- A function name. -/
def nameOf (j : Json) : Reading String :=
  match j with
  | .str s => pure s
  | other => Reading.reject ("bad function name " ++ jsonText other)

end

/-- Reads an expression with the default nesting bound. -/
def Scope.exp (s : Scope) (j : Json) : Reading Exp := expOf s expFuel j

/-- Reads one calculated member; without a parent it is a calculated measure. -/
def Scope.calculatedMember (s : Scope) (j : Json) : Reading Member := do
  let name ← Reading.lift (stringField j "name")
  let formula ← s.exp ((j.get? "formula").getD .null)
  let solve ← match j.field? "solve" with
    | none => pure 0
    | some (.int n) => pure n
    | some other => Reading.reject ("solve must be an integer, got " ++ jsonText other)
  match j.field? "parent" with
  | none => pure (.calculatedMeasure 0 name formula solve)
  | some (.str p) => do pure (.calculated (← s.member p) name formula solve)
  | some other => Reading.reject ("no member " ++ jsonText other)

/-- Reads the calculated members in order; each may refer to the ones before it. -/
def Scope.withCalculated (s : Scope) (items : List Json) : Reading Scope :=
  items.foldlM (fun s j => do pure { s with calculated := s.calculated ++ [← s.calculatedMember j] }) s

/-- An aggregator name. -/
def aggregatorOf : Json → Outcome Aggregator
  | .str "sum" => pure .sum
  | .str "count" => pure .count
  | .str "min" => pure .min
  | .str "max" => pure .max
  | other => reject ("unknown aggregator " ++ jsonText other)

/-- A hierarchy of a cube specification: its name among the declared ones, or a raw id. -/
def specHierarchy (names : List String) (j : Json) : Outcome Nat :=
  match j with
  | .int n => if n ≥ 0 then pure n.toNat else reject ("no hierarchy " ++ jsonText j)
  | .str name =>
    match names.findIdx? (· == name) with
    | some i => pure (i + 1)
    | none => reject ("no hierarchy " ++ jsonText j)
  | _ => reject ("no hierarchy " ++ jsonText j)

/-- A path of member names. -/
def pathOf (j : Json) : Outcome (List String) :=
  match j with
  | .arr items =>
    items.mapM fun item =>
      match item with
      | .str s => pure s
      | other => reject ("bad path " ++ jsonText other)
  | other => reject ("bad path " ++ jsonText other)

/-- A `[hierarchy, path]` pair of a specification. -/
def placement (names : List String) (j : Json) : Outcome (Nat × List String) :=
  match j with
  | .arr [h, path] => do pure (← specHierarchy names h, ← pathOf path)
  | other => reject ("bad member " ++ jsonText other)

/-- Builds the cube of a specification: measures, hierarchies, ragged flags, members, facts,
in that order. -/
def cubeOfSpec (spec : Json) : Outcome Cube := do
  let addMeasure := fun (b : CubeBuilder) (m : Json) =>
    match m with
    | .arr [.str name, agg] => do pure (b.addMeasure name (← aggregatorOf agg))
    | other => reject ("bad measure " ++ jsonText other)
  let b ← (← listField spec "measures").foldlM addMeasure {}
  let levelName := fun (l : Json) =>
    match l with
    | .str l => pure l
    | other => reject ("bad level name " ++ jsonText other)
  let addHierarchy := fun (acc : CubeBuilder × List String) (h : Json) => do
    let name ← stringField h "name"
    let levels ← (← listField h "levels").mapM levelName
    pure ((acc.1.addHierarchy name levels).1, acc.2 ++ [name])
  let (b, names) ← (← listField spec "hierarchies").foldlM addHierarchy (b, [])
  let setRagged := fun (b : CubeBuilder) (h : Json) => do
    engine (b.setRagged (← specHierarchy names h) true)
  let b ← (← listField spec "ragged").foldlM setRagged b
  let addMembers := fun (b : CubeBuilder) (m : Json) => do
    let (h, path) ← placement names m
    pure (← engine (b.addMembers h path)).1
  let b ← (← listField spec "members").foldlM addMembers b
  let valueOf := fun (v : Json) =>
    match v with
    | .arr [.str name, x] => do pure (name, ← numberOf x)
    | other => reject ("bad value " ++ jsonText other)
  let addFact := fun (b : CubeBuilder) (f : Json) => do
    let coordinate ← (← listField f "at").mapM (placement names)
    let values ← (← listField f "values").mapM valueOf
    let (b, outcome) := b.addFact coordinate values
    engine outcome
    pure b
  let b ← (← listField spec "facts").foldlM addFact b
  engine b.build

/-- The cube a request names: the sales preset by default. -/
def cubeOf (req : Json) : Outcome Cube := do
  let cube ← match req.get? "cube" with
    | none | some .null | some (.str "sales") => engine Presets.sales
    | some (.str "items") => engine Presets.items
    | some spec@(.obj _) => cubeOfSpec spec
    | some other => reject ("unknown cube " ++ jsonText other)
  let enabled :=
    match req.get? "native_enabled" with
    | some (.bool false) => false
    | _ => true
  pure { cube with nativeEnabled := enabled }

/-- The configuration a request names. -/
def configOf (req : Json) : Outcome EngineConfig :=
  match req.get? "preset" with
  | some (.str "interpreted_only") => pure EngineConfig.interpretedOnly
  | _ =>
    match req.field? "config" with
    | none => pure {}
    | some j => engine (EngineConfig.ofJson j)

/-- The shared part of a request: configuration, cube and calculated members. -/
structure Setup where
  config : EngineConfig
  scope : Scope
  /-- Names the cube resolved while the request was read. -/
  cached : List String

/-- Reads the shared part of a request; the configuration is read before the cube. -/
def setupOf (req : Json) : Outcome Setup := do
  let config ← configOf req
  let cube ← cubeOf req
  let (scope, cached) ← (Scope.withCalculated ⟨cube, []⟩ (← listField req "calc")).run []
  pure ⟨config, scope, cached⟩

/-- Reads an expression of the request, outside the cube's cache. -/
def Setup.exp (s : Setup) (j : Json) : Outcome Exp := do
  pure (← (s.scope.exp j).run s.cached).1

/-- Resolves a member name of the request. -/
def Setup.member (s : Setup) (name : String) : Outcome Member := do
  pure (← (s.scope.member name).run s.cached).1

/-- The members of a list of unique names. -/
def Setup.members (s : Setup) (items : List Json) : Outcome (List Member) :=
  items.mapM fun item =>
    match item with
    | .str name => s.member name
    | other => reject ("no member " ++ jsonText other)

end OlapCalc.Service
