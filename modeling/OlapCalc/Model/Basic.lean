/-!
The vocabulary of a cube: members, hierarchies, levels and the expressions that calculated
members carry.

Members, hierarchies and expressions refer to each other: a calculated member holds its
formula, an expression may name a member or a hierarchy, and a hierarchy names its default
member. They are therefore one mutual family. Two members are the same member exactly when
their unique names agree; two levels are the same level when hierarchy and depth agree.
-/

namespace OlapCalc

/-- How a stored measure rolls up over facts. -/
inductive Aggregator where
  | sum
  | count
  | min
  | max
deriving Repr, BEq, DecidableEq, Inhabited

/-- How a call was written. Functions are looked up by name and syntax together, so
`x.Members` and `Members(x)` are different functions. An `operator` call is written
between its two operands, a `unary` one before its operand. -/
inductive CallSyntax where
  | function
  | property
  | method
  | operator
  | unary
  | braces
  | parentheses
deriving Repr, BEq, DecidableEq, Inhabited

/-- A literal constant of the expression language. -/
inductive Literal where
  | null
  | number (x : Float)
  | integer (n : Int)
  | string (s : String)
  | boolean (b : Bool)
deriving Inhabited

/-- A level of a hierarchy: depth `0` is the `(All)` level. -/
structure LevelRef where
  hierarchy : Nat
  depth : Nat
  uniqueName : String
deriving Inhabited

/-- Levels are equal when they sit at the same depth of the same hierarchy. -/
instance : BEq LevelRef := ⟨fun a b => a.hierarchy == b.hierarchy && a.depth == b.depth⟩

mutual

/-- A position within a hierarchy. -/
inductive Member where
  | mk (hierarchy : Nat) (uniqueName : String) (name : String) (depth : Nat) (ordinal : Nat)
      (parent : Option Member) (isMeasure : Bool) (kind : MemberKind)

/-- What kind of member: the `All` member, a regular member, a stored measure, or a calculated
member with its formula and solve order. -/
inductive MemberKind where
  | all
  | regular
  | measure (aggregator : Aggregator)
  | calculated (expression : Exp) (solveOrder : Int)

/-- A hierarchy of a cube: its id (the index of its slot in a coordinate), name, level names
(the `(All)` level first for dimensions), default member and flags. -/
inductive Hierarchy where
  | mk (id : Nat) (name : String) (levels : List String) (defaultMember : Member)
      (isMeasures : Bool) (ragged : Bool)

/-- An expression: literals, resolved member, level and hierarchy references, bare symbols
such as sort flags, and calls. -/
inductive Exp where
  | literal (value : Literal)
  | member (m : Member)
  | level (l : LevelRef)
  | hierarchy (h : Hierarchy)
  | symbol (text : String)
  | call (name : String) (style : CallSyntax) (args : List Exp)

end

namespace Member

/-- The id of the member's hierarchy. -/
def hierarchy : Member → Nat
  | .mk h .. => h

/-- The unique name, e.g. `[Store].[All].[CA]`. -/
def uniqueName : Member → String
  | .mk _ u .. => u

/-- The short name, e.g. `CA`. -/
def name : Member → String
  | .mk _ _ n .. => n

/-- Distance from the top of the hierarchy. -/
def depth : Member → Nat
  | .mk _ _ _ d .. => d

/-- Position among its siblings; calculated members use `4294967295`. -/
def ordinal : Member → Nat
  | .mk _ _ _ _ o .. => o

/-- The parent member, if any. -/
def parent : Member → Option Member
  | .mk _ _ _ _ _ p .. => p

/-- Whether the member belongs to the measures hierarchy. -/
def isMeasure : Member → Bool
  | .mk _ _ _ _ _ _ m _ => m

/-- The member's kind. -/
def kind : Member → MemberKind
  | .mk _ _ _ _ _ _ _ k => k

/-- Whether this is an `All` member. -/
def isAll (m : Member) : Bool :=
  match m.kind with
  | .all => true
  | _ => false

/-- Whether this is a calculated member. -/
def isCalculated (m : Member) : Bool :=
  match m.kind with
  | .calculated .. => true
  | _ => false

/-- Whether this is a stored measure. -/
def isStoredMeasure (m : Member) : Bool :=
  match m.kind with
  | .measure _ => true
  | _ => false

/-- The aggregator of a stored measure. -/
def aggregator (m : Member) : Option Aggregator :=
  match m.kind with
  | .measure a => some a
  | _ => none

/-- The formula and solve order of a calculated member. -/
def formula (m : Member) : Option (Exp × Int) :=
  match m.kind with
  | .calculated e s => some (e, s)
  | _ => none

/-- The ordinal given to calculated members. -/
def calculatedOrdinal : Nat := 4294967295

/-- The `All` member of a dimension hierarchy: `[H].[All]`. -/
def all (hierarchy : Nat) (hierarchyName : String) : Member :=
  .mk hierarchy ("[" ++ hierarchyName ++ "].[All]") "All" 0 0 none false .all

/-- A regular child: `parent.[name]`, one level down, a measure if its parent is. -/
def child (parent : Member) (name : String) (ordinal : Nat) : Member :=
  .mk parent.hierarchy (parent.uniqueName ++ ".[" ++ name ++ "]") name (parent.depth + 1) ordinal
    (some parent) parent.isMeasure .regular

/-- A stored measure: `[Measures].[name]`. -/
def measure (hierarchy : Nat) (name : String) (aggregator : Aggregator) (ordinal : Nat) :
    Member :=
  .mk hierarchy ("[Measures].[" ++ name ++ "]") name 0 ordinal none true (.measure aggregator)

/-- A calculated measure: `[Measures].[name]`, at depth `0` with no parent. -/
def calculatedMeasure (hierarchy : Nat) (name : String) (expression : Exp) (solveOrder : Int) :
    Member :=
  .mk hierarchy ("[Measures].[" ++ name ++ "]") name 0 calculatedOrdinal none true
    (.calculated expression solveOrder)

/-- A calculated member under `parent`: `parent.[name]`, one level down. -/
def calculated (parent : Member) (name : String) (expression : Exp) (solveOrder : Int) : Member :=
  .mk parent.hierarchy (parent.uniqueName ++ ".[" ++ name ++ "]") name (parent.depth + 1)
    calculatedOrdinal (some parent) parent.isMeasure (.calculated expression solveOrder)

instance : BEq Member := ⟨fun a b => a.uniqueName == b.uniqueName⟩

instance : Inhabited Member := ⟨all 0 ""⟩

instance : Hashable Member := ⟨fun m => hash m.uniqueName⟩

/-- The ancestor of `m` at depth `d`, walking parent links (at most `fuel` of them). -/
def ancestorAt (d : Nat) : Member → Nat → Option Member
  | m, 0 => if m.depth == d then some m else none
  | m, fuel + 1 =>
    if m.depth == d then some m
    else
      match m.parent with
      | some p => ancestorAt d p fuel
      | none => none

/-- Whether `self` is `other` or one of its ancestors. -/
def isAncestorOrSelf (self other : Member) : Bool :=
  if self.hierarchy != other.hierarchy || self.depth > other.depth then false
  else
    match ancestorAt self.depth other other.depth with
    | some a => a == self
    | none => false

end Member

namespace Hierarchy

/-- The hierarchy id. -/
def id : Hierarchy → Nat
  | .mk i .. => i

/-- The hierarchy name. -/
def name : Hierarchy → String
  | .mk _ n .. => n

/-- The level names, top first. -/
def levels : Hierarchy → List String
  | .mk _ _ l .. => l

/-- The default member. -/
def defaultMember : Hierarchy → Member
  | .mk _ _ _ d .. => d

/-- Whether this is the measures hierarchy. -/
def isMeasures : Hierarchy → Bool
  | .mk _ _ _ _ m _ => m

/-- Whether some members skip levels. -/
def isRagged : Hierarchy → Bool
  | .mk _ _ _ _ _ r => r

/-- The number of levels. -/
def levelCount (h : Hierarchy) : Nat := h.levels.length

/-- The level at `depth`, named `[H].[level]`. -/
def level (h : Hierarchy) (depth : Nat) : Option LevelRef :=
  (h.levels[depth]?).map fun n => ⟨h.id, depth, "[" ++ h.name ++ "].[" ++ n ++ "]"⟩

/-- ASCII lower case, for case-insensitive names. -/
def lowerAscii (s : String) : String := s.map Char.toLower

/-- The first level whose name matches, ignoring ASCII case. -/
def levelByName (h : Hierarchy) (name : String) : Option LevelRef :=
  match h.levels.findIdx? (fun l => lowerAscii l == lowerAscii name) with
  | some d => h.level d
  | none => none

/-- Hierarchies are equal when their ids are. -/
instance : BEq Hierarchy := ⟨fun a b => a.id == b.id⟩

instance : Inhabited Hierarchy := ⟨.mk 0 "" [] default false false⟩

end Hierarchy

instance : Inhabited Exp := ⟨.literal .null⟩

/-- A tuple: members of distinct hierarchies, in order. -/
abbrev Tuple := List Member

namespace Tuple

/-- The first member of hierarchy `h`. -/
def memberFor (t : Tuple) (h : Nat) : Option Member := t.find? (·.hierarchy == h)

/-- The debug text of a tuple: `(a, b)`. -/
def debug (t : Tuple) : String := "(" ++ ", ".intercalate (t.map Member.uniqueName) ++ ")"

end Tuple

end OlapCalc
