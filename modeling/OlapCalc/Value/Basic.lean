import OlapCalc.Model.Render
import OlapCalc.Error
import OlapCalc.Numeric.FloatSyntax

/-!
Runtime values and their scalar views.

`null` is the "no applicable value" sentinel shared by every scalar kind; it is distinct from
`0`, `""` and `false`. The views `toNumber`, `toInteger`, `toBoolean` and `toText` return
`none` for null, a value for convertible scalars, and an evaluation error otherwise.
-/

namespace OlapCalc

/-- A value produced by a compiled node. Integers stay within the 64-bit signed range. -/
inductive Value where
  | null
  | boolean (b : Bool)
  | integer (n : Int)
  | float (x : Float)
  | string (s : String)
  | member (m : Member)
  | tuple (t : Tuple)
  | set (tuples : List Tuple)
  | level (l : LevelRef)
  | hierarchy (h : Hierarchy)
deriving Inhabited

/-- Unicode white space, as string trimming understands it. -/
def isUnicodeSpace (c : Char) : Bool :=
  let n := c.toNat
  (n ≥ 9 && n ≤ 13) || n == 32 || n == 0x85 || n == 0xA0 || n == 0x1680 ||
    (n ≥ 0x2000 && n ≤ 0x200A) || n == 0x2028 || n == 0x2029 || n == 0x202F || n == 0x205F ||
    n == 0x3000

/-- Removes leading and trailing Unicode white space. -/
def trimUnicode (s : String) : String :=
  String.ofList ((s.toList.dropWhile isUnicodeSpace).reverse.dropWhile isUnicodeSpace).reverse

namespace Value

/-- Whether the value is null. -/
def isNull : Value → Bool
  | .null => true
  | _ => false

/-- The value's type name. -/
def typeName : Value → String
  | .null => "null"
  | .boolean _ => "boolean"
  | .integer _ => "integer"
  | .float _ => "float"
  | .string _ => "string"
  | .member _ => "member"
  | .tuple _ => "tuple"
  | .set _ => "set"
  | .level _ => "level"
  | .hierarchy _ => "hierarchy"

/-- The text of a float value: integral values below `1e15` print as integers, so `-0` prints
`0`; other values print in plain decimal. -/
def floatDisplay (x : Float) : String :=
  if Binary64.isIntegral x && Binary64.absLessPow10 x 15 then toString (Binary64.toInt64 x)
  else FloatText.display x

/-- The display text of a value. -/
def display : Value → String
  | .null => ""
  | .boolean b => if b then "true" else "false"
  | .integer n => toString n
  | .float x => floatDisplay x
  | .string s => s
  | .member m => m.uniqueName
  | .tuple t => Tuple.debug t
  | .set ts => "\x7b" ++ toString ts.length ++ " tuples\x7d"
  | .level l => l.uniqueName
  | .hierarchy h => "[" ++ h.name ++ "]"

/-- The numeric view: integers and booleans convert, strings are parsed after trimming. -/
def toNumber : Value → Except OlapError (Option Float)
  | .null => pure none
  | .integer n => pure (some (Binary64.ofInt n))
  | .float x => pure (some x)
  | .boolean b => pure (some (if b then Binary64.ofNat 1 else Binary64.zero))
  | .string s =>
    match FloatSyntax.parse (trimUnicode s) with
    | some x => pure (some x)
    | none => throw (.eval ("cannot convert string \"" ++ s ++ "\" to a number"))
  | other => throw (.eval ("expected a numeric value, got " ++ other.typeName))

/-- The integer view: floats are truncated with saturation. -/
def toInteger : Value → Except OlapError (Option Int)
  | .integer n => pure (some n)
  | other => do
    let n ← other.toNumber
    pure (n.map Binary64.toInt64)

/-- The boolean view: numbers are true when nonzero. -/
def toBoolean : Value → Except OlapError (Option Bool)
  | .null => pure none
  | .boolean b => pure (some b)
  | .integer n => pure (some (n != 0))
  | .float x => pure (some (!(x == Binary64.zero)))
  | other => throw (.eval ("expected a boolean value, got " ++ other.typeName))

/-- The text view: scalars print, a member gives its short name. -/
def toText : Value → Except OlapError (Option String)
  | .null => pure none
  | .string s => pure (some s)
  | v@(.boolean _) | v@(.integer _) | v@(.float _) => pure (some v.display)
  | .member m => pure (some m.name)
  | other => throw (.eval ("expected a string value, got " ++ other.typeName))

/-- An optional float as a value. -/
def ofOptFloat : Option Float → Value
  | some x => .float x
  | none => .null

end Value

end OlapCalc
