import OlapCalc.Value.Basic

/-!
Number format patterns, as the `Format` function applies them.

A pattern has up to three sections separated by `;` (positive, negative, zero). Inside a
section `0` is a required digit, `#` an optional one, `.` the decimal point, `,` before the
point asks for thousands grouping and `%` scales by one hundred. Quoted text and characters
after a backslash are copied; so is any other character. Text before the first digit
placeholder is a leading literal, text after it a trailing one. The names `Standard`, `Fixed`,
`Percent`, `Currency` and `General Number` stand for fixed patterns.

Numbers are first written with exactly the section's maximum number of fraction digits
(rounding half to even on the exact binary value), then optional fraction zeros and leading
integer zeros are removed and the required ones restored.
-/

namespace OlapCalc

/-- One section of a pattern. A `general` section prints the number as a value prints. -/
structure FormatSection where
  general : Bool := false
  leading : String := ""
  trailing : String := ""
  minInt : Nat := 0
  minFrac : Nat := 0
  maxFrac : Nat := 0
  grouping : Bool := false
  percent : Bool := false
deriving Repr, BEq, Inhabited

/-- A parsed pattern: the positive section and the optional negative and zero sections. -/
structure Formatter where
  positive : FormatSection
  negative : Option FormatSection := none
  zero : Option FormatSection := none
deriving Repr, BEq, Inhabited

namespace FormatSection

/-- Adds literal text before or after the digits, depending on whether a digit placeholder
has been seen. -/
def addLiteral (s : FormatSection) (afterDigits : Bool) (text : String) : FormatSection :=
  if afterDigits then { s with trailing := s.trailing ++ text }
  else { s with leading := s.leading ++ text }

/-- Where the section reader is: reading placeholders, inside a quote, or after a
backslash. -/
inductive ReadMode where
  | plain
  | quoted (text : List Char)
  | escaped

/-- Reads the characters of one section; also reports whether a digit placeholder or the
decimal point occurred outside quotes. -/
def readChars : List Char → FormatSection → ReadMode → Bool → Bool → FormatSection × Bool
  | [], s, .quoted text, seen, _ => (s.addLiteral seen (String.ofList text.reverse), seen)
  | [], s, _, seen, _ => (s, seen)
  | c :: rest, s, .quoted text, seen, after =>
    if c == '"' then readChars rest (s.addLiteral seen (String.ofList text.reverse)) .plain seen after
    else readChars rest s (.quoted (c :: text)) seen after
  | c :: rest, s, .escaped, seen, after =>
    readChars rest (s.addLiteral seen c.toString) .plain seen after
  | c :: rest, s, .plain, seen, after =>
    if c == '0' || c == '#' then
      if after then
        let places := s.maxFrac + 1
        let s := { s with maxFrac := places, minFrac := if c == '0' then places else s.minFrac }
        readChars rest s .plain true after
      else
        let s := if c == '0' then { s with minInt := s.minInt + 1 } else s
        readChars rest s .plain true after
    else if c == '.' then readChars rest s .plain true true
    else if c == ',' && !after then readChars rest { s with grouping := true } .plain seen after
    else if c == '%' then
      readChars rest ({ s with percent := true }.addLiteral seen "%") .plain seen after
    else if c == '"' then readChars rest s (.quoted []) seen after
    else if c == '\\' then readChars rest s .escaped seen after
    else readChars rest (s.addLiteral seen c.toString) .plain seen after

/-- Parses one section. A section without digit placeholders is general when it has no
leading text. -/
def parse (cs : List Char) : FormatSection :=
  let (s, seenDigit) := readChars cs {} .plain false false
  if seenDigit then s else { s with general := s.leading.isEmpty }

/-- Inserts a comma before every group of three digits counted from the right. -/
def groupThousands (digits : List Char) : List Char :=
  let len := digits.length
  (digits.zipIdx.flatMap fun (c, idx) =>
    if idx > 0 && (len - idx) % 3 == 0 then [',', c] else [c])

/-- Renders a non-negative number (or `-0`) with this section. -/
def render (s : FormatSection) (n : Float) : String :=
  if s.general then s.leading ++ Value.floatDisplay n ++ s.trailing
  else
    let scaled := if s.percent then n * Binary64.ofNat 100 else n
    let fixedText := (FloatText.fixed scaled s.maxFrac).toList
    let intPart := fixedText.takeWhile (· != '.')
    let fracPart := (fixedText.dropWhile (· != '.')).drop 1
    let frac := trimZeros fracPart.reverse s.minFrac |>.reverse
    let digits := intPart.dropWhile (· == '0')
    let digits := List.replicate (s.minInt - digits.length) '0' ++ digits
    let digits := if s.grouping then groupThousands digits else digits
    s.leading ++ String.ofList digits ++
      (if frac.isEmpty then "" else "." ++ String.ofList frac) ++ s.trailing
where
  /-- Drops zeros from the front of the reversed fraction while it is longer than `keep`. -/
  trimZeros : List Char → Nat → List Char
    | '0' :: rest, keep => if rest.length + 1 > keep then trimZeros rest keep else '0' :: rest
    | cs, _ => cs

end FormatSection

namespace Formatter

/-- Splits a pattern at the `;` that are neither quoted nor escaped. -/
def splitSections (cs : List Char) : List (List Char) :=
  go cs false false [] []
where
  go : List Char → Bool → Bool → List Char → List (List Char) → List (List Char)
    | [], _, _, current, done => (current.reverse :: done).reverse
    | c :: rest, inQuote, escaped, current, done =>
      if escaped then go rest inQuote false (c :: current) done
      else if c == '\\' && !inQuote then go rest inQuote true (c :: current) done
      else if c == '"' then go rest (!inQuote) false (c :: current) done
      else if c == ';' && !inQuote then go rest inQuote false [] (current.reverse :: done)
      else go rest inQuote false (c :: current) done

/-- The pattern a named format stands for, if `name` is one (ignoring case and surrounding
white space). `none` inside means the general format. -/
def named? (name : String) : Option (Option String) :=
  match Hierarchy.lowerAscii (trimUnicode name) with
  | "" | "general number" | "general" => some none
  | "standard" => some (some "#,##0.00")
  | "fixed" => some (some "0.00")
  | "percent" => some (some "0.00%")
  | "currency" => some (some "$#,##0.00")
  | _ => none

/-- Parses a pattern. -/
def ofPattern (pattern : String) : Formatter :=
  match named? pattern with
  | some none => { positive := { general := true } }
  | some (some expanded) => ofSections (splitSections expanded.toList)
  | none => ofSections (splitSections pattern.toList)
where
  ofSections : List (List Char) → Formatter
    | [] => { positive := {} }
    | [p] => { positive := FormatSection.parse p }
    | [p, n] => { positive := FormatSection.parse p, negative := some (FormatSection.parse n) }
    | p :: n :: z :: _ =>
      { positive := FormatSection.parse p, negative := some (FormatSection.parse n),
        zero := some (FormatSection.parse z) }

/-- Formats a number: zero uses the zero section when there is one, a negative number the
negative section, or else the positive one with a minus sign when a nonzero digit shows. -/
def formatNumber (f : Formatter) (n : Float) : String :=
  match f.zero with
  | some z => if n == Binary64.zero then z.render Binary64.zero else nonZero
  | none => nonZero
where
  nonZero : String :=
    if n < Binary64.zero then
      match f.negative with
      | some neg => neg.render (-n)
      | none =>
        let body := f.positive.render (-n)
        if body.any (fun c => c.isDigit && c != '0') then "-" ++ body else body
    else f.positive.render n

/-- Formats a value: null is empty, numbers use the pattern, anything else prints as usual. -/
def format (f : Formatter) : Value → String
  | .null => ""
  | .integer i => f.formatNumber (Binary64.ofInt i)
  | .float x => f.formatNumber x
  | other => other.display

end Formatter

end OlapCalc
