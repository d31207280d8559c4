import OlapCalc.Json.Basic
import OlapCalc.Numeric.FloatSyntax

/-!
Reading JSON text.

The reader works on the UTF-8 bytes of a line. It accepts exactly the JSON grammar: no
trailing commas, no comments, no control characters inside strings, surrogate escapes only in
pairs, nesting at most 128 deep. Integer tokens that fit 64 bits become `Json.int`; a negative
zero and every token with a fraction or an exponent become floats, built the way the fast JSON
float path builds them; a float that overflows is an error.
-/

namespace OlapCalc.JsonParse

/-- A position in the input bytes. -/
abbrev Pos := Nat

/-- The byte at `i`, or `0` past the end. -/
def byteAt (b : ByteArray) (i : Pos) : UInt8 := if h : i < b.size then b[i] else 0

/-- Skips JSON whitespace. -/
def skipWs (b : ByteArray) (i : Pos) : Pos :=
  go i (b.size + 1 - i)
where
  go (i : Pos) : Nat → Pos
    | 0 => i
    | fuel + 1 =>
      let c := byteAt b i
      if i < b.size && (c == 32 || c == 9 || c == 10 || c == 13) then go (i + 1) fuel else i

/-- Whether `c` is an ASCII digit. -/
def isDigit (c : UInt8) : Bool := c ≥ 48 && c ≤ 57

/-- Consumes digits; returns the digits read as a natural, their count and the position after. -/
def digits (b : ByteArray) (i : Pos) : Nat × Nat × Pos :=
  go i 0 0 (b.size + 1 - i)
where
  go (i : Pos) (acc n : Nat) : Nat → Nat × Nat × Pos
    | 0 => (acc, n, i)
    | fuel + 1 =>
      let c := byteAt b i
      if i < b.size && isDigit c then go (i + 1) (acc * 10 + (c.toNat - 48)) (n + 1) fuel
      else (acc, n, i)

/-- Whether appending `d` to the 64-bit accumulator `acc` would overflow it. -/
def overflows (acc d : Nat) : Bool := acc * 10 + d ≥ Nat.pow 2 64

/-- The float a number token denotes, from its kept significand and decimal exponent. -/
def finish (positive : Bool) (significand : Nat) (exponent : Int) : Except String Float :=
  match FloatSyntax.fromParts positive significand exponent with
  | some x => pure x
  | none => throw "number out of range"

/-- Skips a run of digits. -/
def skipDigits (b : ByteArray) (i : Pos) : Pos := (digits b i).2.2

/-- The exponent after `e` or `E` at `i`, applied to `significand * 10 ^ start`. -/
def exponentTail (b : ByteArray) (i : Pos) (positive : Bool) (significand : Nat) (start : Int) :
    Except String (Float × Pos) := do
  let i := i + 1
  let (expPositive, i) :=
    if byteAt b i == 43 then (true, i + 1)
    else if byteAt b i == 45 then (false, i + 1)
    else (true, i)
  if i ≥ b.size then throw "EOF while parsing a value"
  if !isDigit (byteAt b i) then throw "invalid number"
  let (e, _, j) := digits b i
  if e > Nat.pow 2 31 - 1 then
    if significand != 0 && expPositive then throw "number out of range"
    else pure (Binary64.signedZero (!positive), j)
  else
    let x ← finish positive significand (if expPositive then start + e else start - e)
    pure (x, j)

/-- After dropping digits that no longer fit the significand: skips the remaining digits and
reads an optional exponent. -/
def afterOverflow (b : ByteArray) (i : Pos) (positive : Bool) (significand : Nat)
    (exponent : Int) : Except String (Float × Pos) := do
  let j := skipDigits b i
  let c := byteAt b j
  if j < b.size && (c == 101 || c == 69) then exponentTail b j positive significand exponent
  else pure (← finish positive significand exponent, j)

/-- The fraction after the point at `i`: digits are appended to the significand until it would
overflow. -/
def fraction (b : ByteArray) (i : Pos) (positive : Bool) (significand : Nat) (start : Int) :
    Except String (Float × Pos) :=
  go (i + 1) significand 0 (b.size + 1)
where
  go (j : Pos) (acc : Nat) (after : Nat) : Nat → Except String (Float × Pos)
    | 0 => throw "invalid number"
    | fuel + 1 =>
      let c := byteAt b j
      if j < b.size && isDigit c then
        if overflows acc (c.toNat - 48) then
          afterOverflow b j positive acc (start - after)
        else go (j + 1) (acc * 10 + (c.toNat - 48)) (after + 1) fuel
      else if after == 0 then
        if j ≥ b.size then throw "EOF while parsing a value" else throw "invalid number"
      else if j < b.size && (c == 101 || c == 69) then
        exponentTail b j positive acc (start - after)
      else do
        let x ← finish positive acc (start - after)
        pure (x, j)

/-- What follows a significand whose integer digits are all read: a fraction, an exponent or
the end of the number. -/
def afterInteger (b : ByteArray) (i : Pos) (positive : Bool) (significand : Nat) (dropped : Nat) :
    Except String (Json × Pos) := do
  let c := byteAt b i
  if i < b.size && c == 46 then
    let (x, j) ← fraction b i positive significand dropped
    pure (.float x, j)
  else if i < b.size && (c == 101 || c == 69) then
    let (x, j) ← exponentTail b i positive significand dropped
    pure (.float x, j)
  else if dropped > 0 then
    let x ← finish positive significand dropped
    pure (.float x, i)
  else if positive then pure (.int significand, i)
  else if significand ≥ 1 && significand ≤ Nat.pow 2 63 then pure (.int (-(significand : Int)), i)
  else pure (.float (-(Binary64.ofNat significand)), i)

/-- The integer digits from `i`: accumulated while they fit 64 bits, counted as a decimal
exponent once they no longer do. -/
def integerDigits (b : ByteArray) (i : Pos) (positive : Bool) : Except String (Json × Pos) :=
  go i 0 0 false (b.size + 1)
where
  go (j : Pos) (acc : Nat) (dropped : Nat) (full : Bool) : Nat → Except String (Json × Pos)
    | 0 => throw "invalid number"
    | fuel + 1 =>
      let c := byteAt b j
      if j < b.size && isDigit c then
        if full || overflows acc (c.toNat - 48) then go (j + 1) acc (dropped + 1) true fuel
        else go (j + 1) (acc * 10 + (c.toNat - 48)) dropped false fuel
      else afterInteger b j positive acc dropped

/-- The value of a number token `-? int frac? exp?` starting at `i`. -/
def number (b : ByteArray) (i : Pos) : Except String (Json × Pos) :=
  let negative := byteAt b i == 45
  let i := if negative then i + 1 else i
  if i ≥ b.size then throw "EOF while parsing a value"
  else
    let c := byteAt b i
    if c == 48 then
      if i + 1 < b.size && isDigit (byteAt b (i + 1)) then throw "invalid number"
      else afterInteger b (i + 1) (!negative) 0 0
    else if isDigit c then integerDigits b i (!negative)
    else throw "invalid number"

/-- Four hex digits at `i`. -/
def hex4 (b : ByteArray) (i : Pos) : Option Nat :=
  let d (c : UInt8) : Option Nat :=
    if c ≥ 48 && c ≤ 57 then some (c.toNat - 48)
    else if c ≥ 97 && c ≤ 102 then some (c.toNat - 87)
    else if c ≥ 65 && c ≤ 70 then some (c.toNat - 55)
    else none
  if i + 4 > b.size then none
  else do
    let a ← d (byteAt b i)
    let b1 ← d (byteAt b (i + 1))
    let c ← d (byteAt b (i + 2))
    let e ← d (byteAt b (i + 3))
    pure (((a * 16 + b1) * 16 + c) * 16 + e)

/-- Appends the UTF-8 encoding of a code point. -/
def pushCode (out : ByteArray) (code : Nat) : ByteArray :=
  (Char.ofNat code).toString.toUTF8.foldl (fun acc x => acc.push x) out

/-- A string body after its opening quote; returns the text and the position after the closing
quote. -/
def string (b : ByteArray) (i : Pos) : Except String (String × Pos) :=
  go i ByteArray.empty (b.size + 1)
where
  go (i : Pos) (out : ByteArray) : Nat → Except String (String × Pos)
    | 0 => throw "EOF while parsing a string"
    | fuel + 1 =>
      if i ≥ b.size then throw "EOF while parsing a string"
      else
        let c := byteAt b i
        if c == 34 then
          match String.fromUTF8? out with
          | some s => pure (s, i + 1)
          | none => throw "invalid unicode"
        else if c < 32 then throw "control character found while parsing a string"
        else if c == 92 then
          let e := byteAt b (i + 1)
          if i + 1 ≥ b.size then throw "EOF while parsing a string"
          else if e == 34 then go (i + 2) (out.push 34) fuel
          else if e == 92 then go (i + 2) (out.push 92) fuel
          else if e == 47 then go (i + 2) (out.push 47) fuel
          else if e == 98 then go (i + 2) (out.push 8) fuel
          else if e == 102 then go (i + 2) (out.push 12) fuel
          else if e == 110 then go (i + 2) (out.push 10) fuel
          else if e == 114 then go (i + 2) (out.push 13) fuel
          else if e == 116 then go (i + 2) (out.push 9) fuel
          else if e == 117 then
            match hex4 b (i + 2) with
            | none => throw "invalid escape"
            | some u =>
              if u ≥ 0xD800 && u < 0xDC00 then
                if byteAt b (i + 6) == 92 && byteAt b (i + 7) == 117 then
                  match hex4 b (i + 8) with
                  | some l =>
                    if l ≥ 0xDC00 && l < 0xE000 then
                      go (i + 12) (pushCode out (0x10000 + (u - 0xD800) * 0x400 + (l - 0xDC00)))
                        fuel
                    else throw "lone leading surrogate in hex escape"
                  | none => throw "invalid escape"
                else throw "lone leading surrogate in hex escape"
              else if u ≥ 0xDC00 && u < 0xE000 then throw "lone trailing surrogate in hex escape"
              else go (i + 6) (pushCode out u) fuel
          else throw "invalid escape"
        else go (i + 1) (out.push c) fuel

/-- Whether the bytes at `i` spell `word`. -/
def literal (b : ByteArray) (i : Pos) (word : String) : Bool :=
  let w := word.toUTF8
  (List.range w.size).all fun k => byteAt b (i + k) == byteAt w k && i + k < b.size

mutual

/-- A value starting at `i` (after whitespace), at nesting `depth`. -/
def value (b : ByteArray) (i : Pos) (depth : Nat) : Nat → Except String (Json × Pos)
  | 0 => throw "input too complex"
  | fuel + 1 =>
    let i := skipWs b i
    if i ≥ b.size then throw "EOF while parsing a value"
    else
      let c := byteAt b i
      if c == 110 then
        if literal b i "null" then pure (.null, i + 4) else throw "expected ident"
      else if c == 116 then
        if literal b i "true" then pure (.bool true, i + 4) else throw "expected ident"
      else if c == 102 then
        if literal b i "false" then pure (.bool false, i + 5) else throw "expected ident"
      else if c == 34 then
        match string b (i + 1) with
        | .ok (s, j) => pure (.str s, j)
        | .error e => throw e
      else if c == 45 || isDigit c then number b i
      else if c == 91 then
        if depth ≥ 128 then throw "recursion limit exceeded"
        else
          let j := skipWs b (i + 1)
          if byteAt b j == 93 && j < b.size then pure (.arr [], j + 1)
          else items b j (depth + 1) [] fuel
      else if c == 123 then
        if depth ≥ 128 then throw "recursion limit exceeded"
        else
          let j := skipWs b (i + 1)
          if byteAt b j == 125 && j < b.size then pure (.obj [], j + 1)
          else members b j (depth + 1) [] fuel
      else throw "expected value"
termination_by structural fuel => fuel

/-- Array items from `i`, after the opening bracket or a comma. -/
def items (b : ByteArray) (i : Pos) (depth : Nat) (acc : List Json) : Nat → Except String (Json × Pos)
  | 0 => throw "input too complex"
  | fuel + 1 => do
    let (v, j) ← value b i depth fuel
    let j := skipWs b j
    if j ≥ b.size then throw "EOF while parsing a list"
    else if byteAt b j == 44 then items b (j + 1) depth (v :: acc) fuel
    else if byteAt b j == 93 then pure (.arr (v :: acc).reverse, j + 1)
    else throw "expected `,` or `]`"
termination_by structural fuel => fuel

/-- Object members from `i`, after the opening brace or a comma. -/
def members (b : ByteArray) (i : Pos) (depth : Nat) (acc : List (String × Json)) :
    Nat → Except String (Json × Pos)
  | 0 => throw "input too complex"
  | fuel + 1 => do
    let i := skipWs b i
    if i ≥ b.size then throw "EOF while parsing an object"
    else if byteAt b i != 34 then throw "key must be a string"
    else
      let (k, j) ← string b (i + 1)
      let j := skipWs b j
      if byteAt b j != 58 || j ≥ b.size then throw "expected `:`"
      else
        let (v, j) ← value b (j + 1) depth fuel
        let j := skipWs b j
        if j ≥ b.size then throw "EOF while parsing an object"
        else if byteAt b j == 44 then members b (j + 1) depth ((k, v) :: acc) fuel
        else if byteAt b j == 125 then pure (.obj ((k, v) :: acc).reverse, j + 1)
        else throw "expected `,` or `\x7d`"
termination_by structural fuel => fuel

end

/-- Reads one JSON document that spans the whole text. -/
def parse (s : String) : Except String Json := do
  let b := s.toUTF8
  let (v, j) ← value b 0 0 (2 * b.size + 2)
  let j := skipWs b j
  if j < b.size then throw "trailing characters" else pure v

end OlapCalc.JsonParse
