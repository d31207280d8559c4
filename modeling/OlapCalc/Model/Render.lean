import OlapCalc.Model.Basic
import OlapCalc.Numeric.FloatText

/-!
The text of expressions.

Literals print as constants (`NULL`, `TRUE`, quoted strings with doubled quotes, numbers in
plain decimal), references print their unique names, and calls print according to how they
were written: `f(a, b)`, `a.p`, `a.m(b)`, `(a op b)`, `op a`, `{a, b}` and `(a, b)`.
-/

namespace OlapCalc

/-- Doubles every double quote. -/
def doubleQuotes (s : String) : String := s.replace "\"" "\"\""

/-- The text of a literal. -/
def Literal.render : Literal → String
  | .null => "NULL"
  | .number x => FloatText.display x
  | .integer n => toString n
  | .string s => "\"" ++ doubleQuotes s ++ "\""
  | .boolean b => if b then "TRUE" else "FALSE"

namespace Exp

mutual

/-- The text of an expression. -/
def render : Exp → String
  | .literal l => l.render
  | .member m => m.uniqueName
  | .level l => l.uniqueName
  | .hierarchy h => "[" ++ h.name ++ "]"
  | .symbol s => s
  | .call name .function args => name ++ "(" ++ renderList args ++ ")"
  | .call name .property (target :: _) => render target ++ "." ++ name
  | .call name .property [] => name
  | .call name .method (target :: rest) =>
    render target ++ "." ++ name ++ "(" ++ renderList rest ++ ")"
  | .call name .method [] => name ++ "()"
  | .call name .operator [l, r] => "(" ++ render l ++ " " ++ name ++ " " ++ render r ++ ")"
  | .call name .operator args => name ++ "(" ++ renderList args ++ ")"
  | .call name .unary (arg :: _) => name ++ " " ++ render arg
  | .call name .unary [] => name
  | .call _ .braces args => "\x7b" ++ renderList args ++ "\x7d"
  | .call _ .parentheses args => "(" ++ renderList args ++ ")"

/-- Comma-separated texts. -/
def renderList : List Exp → String
  | [] => ""
  | [e] => render e
  | e :: rest => render e ++ ", " ++ renderList rest

end

/-- Whether the expression is a literal. -/
def isLiteral : Exp → Bool
  | .literal _ => true
  | _ => false

/-- ASCII case-insensitive equality. -/
def sameName (a b : String) : Bool := Hierarchy.lowerAscii a == Hierarchy.lowerAscii b

/-- Whether this is a call of `name` (ignoring ASCII case) written with `style`. -/
def isCall (e : Exp) (name : String) (style : CallSyntax) : Bool :=
  match e with
  | .call n s _ => s == style && sameName n name
  | _ => false

end Exp

end OlapCalc
