import OlapCalc.Numeric.FloatText

/-!
JSON trees.

Numbers keep the distinction the reader makes: an integer token that fits 64 bits stays an
integer, every other number is a binary64 value. Objects are lists of members in input order;
lookups take the last member of a name, as a map built from the input would.
-/

namespace OlapCalc

/-- A JSON value. -/
inductive Json where
  | null
  | bool (b : Bool)
  | int (n : Int)
  | float (x : Float)
  | str (s : String)
  | arr (items : List Json)
  | obj (members : List (String × Json))
deriving Inhabited

namespace Json

/-- The last member named `key`, if any. -/
def get? (j : Json) (key : String) : Option Json :=
  match j with
  | .obj members => (members.reverse.find? (·.1 == key)).map (·.2)
  | _ => none

/-- Whether the object has a member named `key`. -/
def has (j : Json) (key : String) : Bool := (j.get? key).isSome

/-- The member named `key`, treating a JSON `null` as absent. -/
def field? (j : Json) (key : String) : Option Json :=
  match j.get? key with
  | some .null => none
  | other => other

/-- The integer, if this is an integer token within the signed 64-bit range. -/
def asInt64? : Json → Option Int
  | .int n => if n ≤ Int.pow 2 63 - 1 && n ≥ -(Int.pow 2 63) then some n else none
  | _ => none

/-- The number as a binary64 value (integers converted to the nearest value). -/
def asFloat? : Json → Option Float
  | .int n => some (Binary64.ofInt n)
  | .float x => some x
  | _ => none

/-- The string, if this is a string. -/
def asString? : Json → Option String
  | .str s => some s
  | _ => none

/-- The boolean, if this is a boolean. -/
def asBool? : Json → Option Bool
  | .bool b => some b
  | _ => none

/-- The items, if this is an array. -/
def asArray? : Json → Option (List Json)
  | .arr items => some items
  | _ => none

/-- A natural number token. -/
def asNat? : Json → Option Nat
  | .int n => if n ≥ 0 then some n.toNat else none
  | _ => none

/-- Escapes a string for a JSON string literal: quote, backslash and control characters. -/
def escape (s : String) : String :=
  s.foldl (fun acc c => acc ++ escapeChar c) ""
where
  escapeChar (c : Char) : String :=
    if c == '"' then "\\\""
    else if c == '\\' then "\\\\"
    else if c == '\n' then "\\n"
    else if c == '\r' then "\\r"
    else if c == '\t' then "\\t"
    else if c.toNat == 8 then "\\b"
    else if c.toNat == 12 then "\\f"
    else if c.toNat < 32 then
      let h := Nat.toDigits 16 c.toNat
      "\\u" ++ String.ofList (List.replicate (4 - h.length) '0' ++ h)
    else c.toString

/-- A quoted JSON string literal. -/
def quote (s : String) : String := "\"" ++ escape s ++ "\""

/-- The text of a float token; non-finite values have none and are written as `null`. -/
def floatText (x : Float) : String := (FloatText.json x).getD "null"

mutual

/-- Compact JSON text, members in list order. -/
def render : Json → String
  | .null => "null"
  | .bool b => if b then "true" else "false"
  | .int n => toString n
  | .float x => floatText x
  | .str s => quote s
  | .arr items => "[" ++ renderItems items ++ "]"
  | .obj members => "\x7b" ++ renderMembers members ++ "\x7d"

/-- Comma-separated array items. -/
def renderItems : List Json → String
  | [] => ""
  | [x] => render x
  | x :: rest => render x ++ "," ++ renderItems rest

/-- Comma-separated object members. -/
def renderMembers : List (String × Json) → String
  | [] => ""
  | [m] => renderMember m
  | m :: rest => renderMember m ++ "," ++ renderMembers rest

/-- One object member. -/
def renderMember : String × Json → String
  | (k, v) => quote k ++ ":" ++ render v

end

/-- Inserts a member into a list of members kept sorted by name (byte order), replacing a member
of the same name. -/
def insertSorted (k : String) (v : Json) : List (String × Json) → List (String × Json)
  | [] => [(k, v)]
  | (k2, v2) :: rest =>
    if k == k2 then (k, v) :: rest
    else if k < k2 then (k, v) :: (k2, v2) :: rest
    else (k2, v2) :: insertSorted k v rest

mutual

/-- The map a reader builds from an object: one member per name, the last one winning, in
name order. -/
def canonical : Json → Json
  | .arr items => .arr (canonicalItems items)
  | .obj members => .obj (canonicalMembers members [])
  | .null => .null
  | .bool b => .bool b
  | .int n => .int n
  | .float x => .float x
  | .str s => .str s

/-- `canonical` on each item. -/
def canonicalItems : List Json → List Json
  | [] => []
  | x :: rest => canonical x :: canonicalItems rest

/-- Folds members into a sorted member list. -/
def canonicalMembers : List (String × Json) → List (String × Json) → List (String × Json)
  | [], acc => acc
  | m :: rest, acc => canonicalMembers rest (canonicalMember m acc)

/-- Inserts one member, canonicalized. -/
def canonicalMember : String × Json → List (String × Json) → List (String × Json)
  | (k, v), acc => insertSorted k (canonical v) acc

end

end Json

end OlapCalc
