/-!
Static types of compiled nodes.

A `Category` is what a caller asks for; a `Shape` is what a node naturally produces. Member,
tuple and set shapes carry their arity. `ResultStyle` is the representation a set-valued node
hands to its consumer: a one-pass sequence, a shared list or a list the consumer may change.
-/

namespace OlapCalc

/-- The type a caller asks the compiler for. -/
inductive Category where
  | boolean
  | integer
  | numeric
  | string
  | value
  | member
  | tuple
  | set
  | level
  | hierarchy
  | symbol
deriving Repr, BEq, DecidableEq, ReflBEq, LawfulBEq, Inhabited

namespace Category

/-- Every category, in declaration order. -/
def all : List Category :=
  [.boolean, .integer, .numeric, .string, .value, .member, .tuple, .set, .level, .hierarchy,
    .symbol]

/-- Whether values of the category are scalars. -/
def isScalar : Category → Bool
  | .boolean | .integer | .numeric | .string | .value => true
  | _ => false

/-- The lower-case name of the category. -/
def name : Category → String
  | .boolean => "boolean"
  | .integer => "integer"
  | .numeric => "numeric"
  | .string => "string"
  | .value => "value"
  | .member => "member"
  | .tuple => "tuple"
  | .set => "set"
  | .level => "level"
  | .hierarchy => "hierarchy"
  | .symbol => "symbol"

/-- The category with the given name. -/
def ofName? (s : String) : Option Category := all.find? (·.name == s)

end Category

/-- The natural output shape of a compiled node. -/
inductive Shape where
  | boolean
  | integer
  | float
  | string
  /-- A scalar whose kind is only known when evaluated, such as a cell value. -/
  | scalar
  | member
  | tuple (arity : Nat)
  | set (arity : Nat)
  | level
  | hierarchy
  | symbol
deriving Repr, BEq, DecidableEq, ReflBEq, LawfulBEq, Inhabited

namespace Shape

/-- The category a shape belongs to. -/
def category : Shape → Category
  | .boolean => .boolean
  | .integer => .integer
  | .float => .numeric
  | .string => .string
  | .scalar => .value
  | .member => .member
  | .tuple _ => .tuple
  | .set _ => .set
  | .level => .level
  | .hierarchy => .hierarchy
  | .symbol => .symbol

/-- Members per tuple, for member, tuple and set shapes. -/
def arity? : Shape → Option Nat
  | .member => some 1
  | .tuple n => some n
  | .set n => some n
  | _ => none

/-- The arity, one when the shape has none. -/
def arity (s : Shape) : Nat := s.arity?.getD 1

/-- Whether the shape is a scalar. -/
def isScalar (s : Shape) : Bool := s.category.isScalar

/-- Whether the shape is a member or a tuple. -/
def isMemberLike : Shape → Bool
  | .member | .tuple _ => true
  | _ => false

/-- The shape a node of this shape produces when asked for `c`. -/
def convertedTo (s : Shape) (c : Category) : Shape :=
  match c with
  | .boolean => .boolean
  | .integer => .integer
  | .numeric => if s == .integer then .integer else .float
  | .string => .string
  | .value => if s.isScalar then s else .scalar
  | .member => .member
  | .tuple => .tuple s.arity
  | .set => .set s.arity
  | .level => .level
  | .hierarchy => .hierarchy
  | .symbol => .symbol

/-- The name of a shape: `float`, `scalar`, `tuple/N`, `set/N`, else its category's. -/
def name : Shape → String
  | .tuple n => "tuple/" ++ toString n
  | .set n => "set/" ++ toString n
  | .float => "float"
  | .scalar => "scalar"
  | s => s.category.name

/-- The shape with the given name. -/
def ofName? (s : String) : Option Shape :=
  match s with
  | "boolean" => some .boolean
  | "integer" => some .integer
  | "float" => some .float
  | "string" => some .string
  | "scalar" => some .scalar
  | "member" => some .member
  | "level" => some .level
  | "hierarchy" => some .hierarchy
  | "symbol" => some .symbol
  | _ =>
    if s.startsWith "tuple/" then (s.drop 6).toString.toNat?.map .tuple
    else if s.startsWith "set/" then (s.drop 4).toString.toNat?.map .set
    else none

/-- The common shape of two branches: equal shapes stay, integer and float widen to float, and
anything else is a scalar. -/
def unify (a b : Shape) : Shape :=
  if a == b then a
  else if (a == .integer || a == .float) && (b == .integer || b == .float) then .float
  else .scalar

end Shape

/-- A representation of a set handed from a node to its consumer. -/
inductive ResultStyle where
  /-- A single-pass lazy sequence. -/
  | iterable
  /-- A shared, read-only list. -/
  | list
  /-- A freshly built list the consumer may change. -/
  | mutableList
  /-- A non-set value. -/
  | value
deriving Repr, BEq, DecidableEq, Inhabited

namespace ResultStyle

/-- The variant name, as in the error messages. -/
def name : ResultStyle → String
  | .iterable => "Iterable"
  | .list => "List"
  | .mutableList => "MutableList"
  | .value => "Value"

/-- Everything a node that builds a fresh list can produce. -/
def anySet : List ResultStyle := [.iterable, .list, .mutableList]

/-- What a node handing out a shared list can produce. -/
def sharedList : List ResultStyle := [.iterable, .list]

/-- The preference of a one-pass consumer. -/
def iterate : List ResultStyle := [.iterable, .list]

/-- The preference of a consumer that needs random access. -/
def randomAccess : List ResultStyle := [.list, .mutableList, .iterable]

/-- The preference of a consumer that reorders or appends. -/
def mutate : List ResultStyle := [.mutableList, .list, .iterable]

/-- The first style of `accepts` (the caller's preference order) that `produces` contains. -/
def negotiate (produces accepts : List ResultStyle) : Option ResultStyle :=
  accepts.find? (produces.contains ·)

/-- The debug text of a list of styles: `[Iterable, List]`. -/
def debugList (styles : List ResultStyle) : String :=
  "[" ++ ", ".intercalate (styles.map name) ++ "]"

end ResultStyle

end OlapCalc
