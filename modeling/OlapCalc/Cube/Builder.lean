import OlapCalc.Cube.Memory

/-!
Building an in-memory cube.

Measures and hierarchies are declared first; members are created on demand by paths of names
below the `All` member, both by `addMembers` and by the coordinates of facts. The measures
hierarchy always has id `0`; dimension hierarchies are numbered from `1` in the order they are
added. Every step can fail with a configuration error. Marking a hierarchy ragged and declaring
members fail before they change anything; adding a fact places its coordinate entry by entry, so
a fact refused for a later entry or for an unknown measure keeps the members its earlier entries
created.
-/

namespace OlapCalc

/-- A dimension hierarchy under construction. -/
structure HierarchyDef where
  name : String
  /-- Level names, `(All)` first. -/
  levels : List String
  ragged : Bool
  all : Member
  /-- Members per depth, in insertion order. -/
  byDepth : List (List Member)
  /-- Children by parent unique name, in insertion order. -/
  children : List (String × List Member)
deriving Inhabited

/-- The debug text of a string: quoted, with quotes, backslashes and control characters
escaped. -/
def debugString (s : String) : String :=
  "\"" ++ s.foldl (fun acc c => acc ++ escape c) "" ++ "\""
where
  escape (c : Char) : String :=
    if c == '"' then "\\\""
    else if c == '\\' then "\\\\"
    else if c == '\n' then "\\n"
    else if c == '\r' then "\\r"
    else if c == '\t' then "\\t"
    else if c.toNat == 0 then "\\0"
    else if c.toNat < 32 || c.toNat == 127 then
      "\\u\x7b" ++ String.ofList (Nat.toDigits 16 c.toNat) ++ "\x7d"
    else c.toString

/-- Replaces the element at `i`, or appends it when `i` is the length. -/
def setOrPush {α : Type} (xs : List α) (i : Nat) (x : α) : List α :=
  if i < xs.length then xs.set i x else xs ++ [x]

/-- Replaces the value stored under `key` in an association list, or appends the pair. -/
def assocSet {β : Type} (xs : List (String × β)) (key : String) (v : β) : List (String × β) :=
  if xs.any (·.1 == key) then xs.map fun (k, w) => if k == key then (k, v) else (k, w)
  else xs ++ [(key, v)]

namespace HierarchyDef

/-- A fresh hierarchy with an `(All)` level on top of `levels`. -/
def create (id : Nat) (name : String) (levels : List String) : HierarchyDef :=
  let all := Member.all id name
  let levelNames := "(All)" :: levels
  { name := name, levels := levelNames, ragged := false, all := all,
    byDepth := [all] :: levels.map (fun _ => []), children := [] }

/-- The children recorded under a parent. -/
def childrenOf (d : HierarchyDef) (parent : Member) : List Member :=
  ((d.children.find? (·.1 == parent.uniqueName)).map (·.2)).getD []

/-- Walks `path` down from the `All` member, creating missing members at the end of their
sibling lists; fails when the path is deeper than the hierarchy. -/
def ensurePath (d : HierarchyDef) (path : List String) : Except OlapError (HierarchyDef × Member) :=
  if path.length ≥ d.levels.length then
    throw (.config ("path [" ++ ", ".intercalate (path.map debugString) ++
      "] is deeper than hierarchy [" ++ d.name ++ "]"))
  else pure (go d d.all 0 path)
where
  go (d : HierarchyDef) (current : Member) (depth : Nat) : List String → HierarchyDef × Member
    | [] => (d, current)
    | name :: rest =>
      let siblings := d.childrenOf current
      match siblings.find? (·.name == name) with
      | some existing => go d existing (depth + 1) rest
      | none =>
        let child := Member.child current name siblings.length
        let d := { d with
          children := assocSet d.children current.uniqueName (siblings ++ [child])
          byDepth := d.byDepth.modify (depth + 1) (· ++ [child]) }
        go d child (depth + 1) rest

end HierarchyDef

/-- A cube under construction. -/
structure CubeBuilder where
  measures : List (String × Aggregator) := []
  hierarchies : List HierarchyDef := []
  facts : List Fact := []
deriving Inhabited

namespace CubeBuilder

/-- Declares a measure. -/
def addMeasure (b : CubeBuilder) (name : String) (agg : Aggregator) : CubeBuilder :=
  { b with measures := b.measures ++ [(name, agg)] }

/-- Declares a dimension hierarchy; its id is one more than the number declared before. -/
def addHierarchy (b : CubeBuilder) (name : String) (levels : List String) : CubeBuilder × Nat :=
  let id := b.hierarchies.length + 1
  ({ b with hierarchies := b.hierarchies ++ [HierarchyDef.create id name levels] }, id)

/-- The hierarchy with id `h`, or the configuration error for an unknown id. -/
def hierarchyDef (b : CubeBuilder) (h : Nat) : Except OlapError HierarchyDef :=
  match (if h == 0 then none else b.hierarchies[h - 1]?) with
  | some d => pure d
  | none => throw (.config ("unknown hierarchy HierarchyId(" ++ toString h ++ ")"))

/-- Replaces the hierarchy with id `h`. -/
def updateDef (b : CubeBuilder) (h : Nat) (d : HierarchyDef) : CubeBuilder :=
  { b with hierarchies := b.hierarchies.set (h - 1) d }

/-- Marks a hierarchy ragged. -/
def setRagged (b : CubeBuilder) (h : Nat) (ragged : Bool) : Except OlapError CubeBuilder := do
  let d ← b.hierarchyDef h
  pure (b.updateDef h { d with ragged := ragged })

/-- Declares the members along a path without attaching a fact. -/
def addMembers (b : CubeBuilder) (h : Nat) (path : List String) :
    Except OlapError (CubeBuilder × Member) := do
  let d ← b.hierarchyDef h
  let (d, m) ← d.ensurePath path
  pure (b.updateDef h d, m)

/-- Places the paths of a coordinate's entries one by one, recording under its hierarchy the
member each reaches. An entry that fails stops the walk; the members the entries before it
created stay in the builder. -/
def place (b : CubeBuilder) (members : List Member) :
    List (Nat × List String) → CubeBuilder × Except OlapError (List Member)
  | [] => (b, .ok members)
  | (h, path) :: rest =>
    match b.addMembers h path with
    | .ok (b', m) => place b' (members.set (h - 1) m) rest
    | .error e => (b, .error e)

/-- Adds a fact row: hierarchies not named attach it to their `All` member, measures not named
are null for the row. Measures are matched ignoring ASCII case. The builder after the call comes
with the call's outcome. -/
def addFact (b : CubeBuilder) (coordinate : List (Nat × List String))
    (values : List (String × Float)) : CubeBuilder × Except OlapError Unit :=
  match b.place (b.hierarchies.map (·.all)) coordinate with
  | (b, .error e) => (b, .error e)
  | (b, .ok members) =>
    let record (row : List (Option Float)) (entry : String × Float) :
        Except OlapError (List (Option Float)) :=
      match b.measures.findIdx? (fun (m, _) => Exp.sameName m entry.1) with
      | some i => pure (row.set i (some entry.2))
      | none => throw (OlapError.config ("unknown measure " ++ entry.1))
    match values.foldlM record (b.measures.map fun _ => (none : Option Float)) with
    | Except.ok row => ({ b with facts := b.facts ++ [⟨members, row⟩] }, .ok ())
    | Except.error e => (b, .error e)

/-- Builds the cube: the measures hierarchy first, then the dimensions. -/
def build (b : CubeBuilder) : Except OlapError Cube := do
  let measures := b.measures.zipIdx.map fun ((name, agg), i) => Member.measure 0 name agg i
  let some first := measures.head? | throw (.config "a cube needs at least one measure")
  let measuresHierarchy := Hierarchy.mk 0 "Measures" ["MeasuresLevel"] first true false
  let dims := b.hierarchies.zipIdx.map fun (d, i) =>
    Hierarchy.mk (i + 1) d.name d.levels d.all false d.ragged
  pure {
    hierarchies := measuresHierarchy :: dims
    measures := measures
    levels := [measures] :: b.hierarchies.map (·.byDepth)
    children := b.hierarchies.foldl (fun acc d => d.children.foldl (fun acc (k, v) =>
      assocSet acc k v) acc) []
    facts := b.facts
  }

end CubeBuilder

end OlapCalc
