import OlapCalc.Config.Basic
import OlapCalc.Json.Parse
import OlapCalc.Cube.Builder

/-!
Reading engine options from JSON text.

The reader walks the bytes once, the way a streaming JSON deserializer does, so that an error
names the place where reading stopped: `... at line L column C`, with the column counted in
bytes from the start of the line. Syntax errors carry the position where they were found (or
the byte after it, for errors found by looking ahead); errors about the meaning of a value
(wrong type, unknown variant, duplicate field) are placed where reading stood when they
surfaced, which is after the offending value. Unknown fields are skipped, missing fields take
their defaults, and the options may also be given as an array in field order.
-/

namespace OlapCalc.ConfigReader

open JsonParse (byteAt isDigit)

/-- A reading error: its text and, once known, the byte index its position is computed from. -/
structure Fault where
  message : String
  at? : Option Nat := none

/-- A reader over fixed bytes: the index is state, and survives failures. -/
abbrev Reader := ExceptT Fault (StateM Nat)

/-- The byte value of an ASCII character. -/
def ch (c : Char) : UInt8 := c.toUInt8

section

variable (b : ByteArray)

/-- The byte at the index, if any. -/
def peek : Reader (Option UInt8) := do
  let i ← get
  pure (if i < b.size then some (byteAt b i) else none)

/-- The byte at the index, or `0` at the end. -/
def peekOrNull : Reader UInt8 := do pure ((← peek b).getD 0)

/-- Moves past one byte. -/
def eat : Reader Unit := modify (· + 1)

/-- Reads one byte. -/
def next : Reader (Option UInt8) := do
  let c ← peek b
  if c.isSome then eat
  pure c

/-- Fails at the index. -/
def fail {α : Type} (message : String) : Reader α := do
  throw { message, at? := some (← get) }

/-- Fails one byte past the index (at most at the end). -/
def failAhead {α : Type} (message : String) : Reader α := do
  throw { message, at? := some (min b.size ((← get) + 1)) }

/-- Fails without a position yet. -/
def complain {α : Type} (message : String) : Reader α := throw { message }

/-- Places an unplaced error at the index where it surfaces. -/
def fixPosition {α : Type} (act : Reader α) : Reader α :=
  tryCatch act fun f => do
    if f.at?.isSome then throw f else throw { f with at? := some (← get) }

/-- Runs a reader and keeps its outcome, success or failure, as a value. -/
def observe {α : Type} (act : Reader α) : Reader (Except Fault α) :=
  tryCatch (Except.ok <$> act) fun f => pure (.error f)

/-- Skips white space and looks at the next byte. -/
def whitespace : Reader (Option UInt8) := go (b.size + 1)
where
  go : Nat → Reader (Option UInt8)
    | 0 => peek b
    | fuel + 1 => do
      match ← peek b with
      | some c =>
        if c == 32 || c == 10 || c == 9 || c == 13 then do eat; go fuel else pure (some c)
      | none => pure none

/-- Reads the rest of a keyword. -/
def ident (word : List UInt8) : Reader Unit :=
  word.forM fun expected => do
    match ← next b with
    | none => fail "EOF while parsing a value"
    | some c => if c != expected then fail "expected ident" else pure ()

/-- A number as read: an unsigned or negative integer, or a float. -/
inductive Num where
  | unsigned (n : Nat)
  | signed (n : Int)
  | float (x : Float)

/-- The float from a significand and a decimal exponent; overflow is an error. -/
def fromParts (positive : Bool) (significand : Nat) (exponent : Int) : Reader Float :=
  match FloatSyntax.fromParts positive significand exponent with
  | some x => pure x
  | none => fail "number out of range"

/-- Skips digits. -/
def skipDigits : Reader Unit := go (b.size + 1)
where
  go : Nat → Reader Unit
    | 0 => pure ()
    | fuel + 1 => do if isDigit (← peekOrNull b) then do eat; go fuel else pure ()

/-- The exponent after `e`, applied to `significand * 10 ^ start`. The exponent is a 32-bit
count: one that grows past it gives zero, or an error when the number is not zero and the
exponent positive. -/
def exponent (positive : Bool) (significand : Nat) (start : Int) : Reader Float := do
  eat
  let c ← peekOrNull b
  let positiveExp ← if c == ch '+' then do eat; pure true
    else if c == ch '-' then do eat; pure false
    else pure true
  let some d ← next b | fail "EOF while parsing a value"
  if !isDigit d then fail "invalid number"
  let limit : Nat := Nat.pow 2 31 - 1
  let rec go (e : Nat) : Nat → Reader (Option Nat)
    | 0 => pure (some e)
    | fuel + 1 => do
      let c ← peekOrNull b
      if isDigit c then
        eat
        let e := e * 10 + (c.toNat - 48)
        if e > limit then pure none else go e fuel
      else pure (some e)
  match ← go (d.toNat - 48) (b.size + 1) with
  | none =>
    if significand != 0 && positiveExp then fail "number out of range"
    else
      skipDigits b
      pure (Binary64.signedZero (!positive))
  | some e =>
    let total : Int := if positiveExp then start + e else start - e
    let total := max (-(Int.pow 2 31)) (min (Int.pow 2 31 - 1) total)
    fromParts positive significand total

/-- After a significand that cannot take another digit: skips the digits and reads an
optional exponent. -/
def afterOverflow (positive : Bool) (significand : Nat) (start : Int) : Reader Float := do
  skipDigits b
  let c ← peekOrNull b
  if c == ch 'e' || c == ch 'E' then exponent b positive significand start
  else fromParts positive significand start

/-- Whether one more digit overflows a 64-bit significand. -/
def overflows (acc d : Nat) : Bool := acc * 10 + d ≥ Nat.pow 2 64

/-- The fraction after the point: digits join the significand while it has room. -/
def fraction (positive : Bool) (significand : Nat) (start : Int) : Reader Float := do
  eat
  let rec go (acc : Nat) (places : Nat) : Nat → Reader (Sum Float (Nat × Nat))
    | 0 => pure (.inr (acc, places))
    | fuel + 1 => do
      let c ← peekOrNull b
      if isDigit c then
        if overflows acc (c.toNat - 48) then
          return .inl (← afterOverflow b positive acc (start - places))
        eat
        go (acc * 10 + (c.toNat - 48)) (places + 1) fuel
      else pure (.inr (acc, places))
  match ← go significand 0 (b.size + 1) with
  | .inl x => pure x
  | .inr (acc, places) =>
    if places == 0 then
      match ← peek b with
      | some _ => failAhead b "invalid number"
      | none => failAhead b "EOF while parsing a value"
    else
      let c ← peekOrNull b
      if c == ch 'e' || c == ch 'E' then exponent b positive acc (start - places)
      else fromParts positive acc (start - places)

/-- What follows the integer digits of a number that fits 64 bits. -/
def afterInteger (positive : Bool) (significand : Nat) : Reader Num := do
  let c ← peekOrNull b
  if c == ch '.' then return .float (← fraction b positive significand 0)
  if c == ch 'e' || c == ch 'E' then return .float (← exponent b positive significand 0)
  if positive then pure (.unsigned significand)
  else if significand ≥ 1 && significand ≤ Nat.pow 2 63 then pure (.signed (-(significand : Int)))
  else pure (.float (-(Binary64.ofNat significand)))

/-- Integer digits that no longer fit: each counts as a power of ten. -/
def longInteger (positive : Bool) (significand : Nat) : Reader Float := go 0 (b.size + 1)
where
  go (dropped : Nat) : Nat → Reader Float
    | 0 => fromParts positive significand dropped
    | fuel + 1 => do
      let c ← peekOrNull b
      if isDigit c then do eat; go (dropped + 1) fuel
      else if c == ch '.' then fraction b positive significand dropped
      else if c == ch 'e' || c == ch 'E' then exponent b positive significand dropped
      else fromParts positive significand dropped

/-- A number after its optional minus sign. -/
def integer (positive : Bool) : Reader Num := do
  let some c ← next b | fail "EOF while parsing a value"
  if c == ch '0' then
    if isDigit (← peekOrNull b) then failAhead b "invalid number"
    else afterInteger b positive 0
  else if isDigit c then
    let rec go (acc : Nat) : Nat → Reader Num
      | 0 => afterInteger b positive acc
      | fuel + 1 => do
        let d ← peekOrNull b
        if isDigit d then
          if overflows acc (d.toNat - 48) then return .float (← longInteger b positive acc)
          eat
          go (acc * 10 + (d.toNat - 48)) fuel
        else afterInteger b positive acc
    go (c.toNat - 48) (b.size + 1)
  else fail "invalid number"

/-- Four hex digits of an escape. -/
def hexEscape : Reader Nat := do
  let i ← get
  if i + 4 ≤ b.size then
    set (i + 4)
    match JsonParse.hex4 b i with
    | some n => pure n
    | none => fail "invalid escape"
  else
    set b.size
    fail "EOF while parsing a string"

/-- The byte at the index, failing at the end of the text inside a string. -/
def peekInString : Reader UInt8 := do
  match ← peek b with
  | some c => pure c
  | none => fail "EOF while parsing a string"

/-- A `\u` escape; surrogates must come in pairs. -/
def unicodeEscape (out : ByteArray) : Reader ByteArray := do
  let n ← hexEscape b
  if n ≥ 0xDC00 && n ≤ 0xDFFF then fail "lone leading surrogate in hex escape"
  if n < 0xD800 || n > 0xDBFF then return JsonParse.pushCode out n
  if (← peekInString b) == ch '\\' then eat
  else do eat; fail "unexpected end of hex escape"
  if (← peekInString b) == ch 'u' then eat
  else do eat; fail "unexpected end of hex escape"
  let n2 ← hexEscape b
  if n2 < 0xDC00 || n2 > 0xDFFF then fail "lone leading surrogate in hex escape"
  pure (JsonParse.pushCode out (0x10000 + (n - 0xD800) * 0x400 + (n2 - 0xDC00)))

/-- The character after a backslash. -/
def escape (out : ByteArray) : Reader ByteArray := do
  let some c ← next b | fail "EOF while parsing a string"
  if c == ch '"' then pure (out.push c)
  else if c == ch '\\' then pure (out.push c)
  else if c == ch '/' then pure (out.push c)
  else if c == ch 'b' then pure (out.push 8)
  else if c == ch 'f' then pure (out.push 12)
  else if c == ch 'n' then pure (out.push 10)
  else if c == ch 'r' then pure (out.push 13)
  else if c == ch 't' then pure (out.push 9)
  else if c == ch 'u' then unicodeEscape b out
  else fail "invalid escape"

/-- The message for a control character inside a string. -/
def controlCharacter : String := "control character (\\u0000-\\u001F) found while parsing a string"

/-- A string after its opening quote. -/
def string : Reader String := go ByteArray.empty (b.size + 1)
where
  go (out : ByteArray) : Nat → Reader String
    | 0 => fail "EOF while parsing a string"
    | fuel + 1 => do
      let some c ← peek b | fail "EOF while parsing a string"
      if c == ch '"' then
        eat
        pure ((String.fromUTF8? out).getD "")
      else if c == ch '\\' then
        eat
        go (← escape b out) fuel
      else if c < 32 then
        eat
        fail controlCharacter
      else
        eat
        go (out.push c) fuel

/-- Skips a string after its opening quote. -/
def skipString : Reader Unit := go (b.size + 1)
where
  go : Nat → Reader Unit
    | 0 => fail "EOF while parsing a string"
    | fuel + 1 => do
      let some c ← peek b | fail "EOF while parsing a string"
      if c == ch '"' then eat
      else if c == ch '\\' then
        eat
        let some e ← next b | fail "EOF while parsing a string"
        if e == ch 'u' then
          let _ ← hexEscape b
          go fuel
        else if [ch '"', ch '\\', ch '/', ch 'b', ch 'f', ch 'n', ch 'r', ch 't'].contains e then
          go fuel
        else fail "invalid escape"
      else if c < 32 then fail controlCharacter
      else do eat; go fuel

/-- The text of a number where a value of another type was expected. -/
def Num.unexpected : Num → String
  | .unsigned n => "integer `" ++ toString n ++ "`"
  | .signed n => "integer `" ++ toString n ++ "`"
  | .float x => "floating point `" ++ Json.floatText x ++ "`"

/-- The wrong-type error for the value at the index, read to its end; containers are not
read. -/
def invalidType {α : Type} (expected : String) : Reader α := fixPosition do
  let found (what : String) : Reader α :=
    complain ("invalid type: " ++ what ++ ", expected " ++ expected)
  let c ← peekOrNull b
  if c == ch 'n' then do eat; ident b "ull".toUTF8.toList; found "null"
  else if c == ch 't' then do eat; ident b "rue".toUTF8.toList; found "boolean `true`"
  else if c == ch 'f' then do eat; ident b "alse".toUTF8.toList; found "boolean `false`"
  else if c == ch '-' then do eat; found (← integer b false).unexpected
  else if isDigit c then do found (← integer b true).unexpected
  else if c == ch '"' then do eat; found ("string " ++ debugString (← string b))
  else if c == ch '[' then found "sequence"
  else if c == ch '{' then found "map"
  else failAhead b "expected value"

/-- An unsigned integer; `expected` names the target type in errors. -/
def unsignedValue (expected : String) : Reader Nat := fixPosition do
  let visit (n : Num) : Reader Nat :=
    match n with
    | .unsigned n => pure n
    | .signed n => complain ("invalid value: integer `" ++ toString n ++ "`, expected " ++ expected)
    | .float x =>
      complain ("invalid type: floating point `" ++ Json.floatText x ++ "`, expected " ++ expected)
  match ← whitespace b with
  | none => failAhead b "EOF while parsing a value"
  | some c =>
    if c == ch '-' then do eat; visit (← integer b false)
    else if isDigit c then visit (← integer b true)
    else invalidType b expected

/-- A boolean. -/
def boolValue : Reader Bool := fixPosition do
  match ← whitespace b with
  | none => failAhead b "EOF while parsing a value"
  | some c =>
    if c == ch 't' then do eat; ident b "rue".toUTF8.toList; pure true
    else if c == ch 'f' then do eat; ident b "alse".toUTF8.toList; pure false
    else invalidType b "a boolean"

/-- An unsigned integer or `null`. -/
def optionalUnsigned : Reader (Option Nat) := do
  match ← whitespace b with
  | some c =>
    if c == ch 'n' then do eat; ident b "ull".toUTF8.toList; pure none
    else some <$> unsignedValue b "u64"
  | none => some <$> unsignedValue b "u64"

/-- The list of names in an unknown-variant error. -/
def oneOf (names : List String) : String :=
  match names with
  | [] => "there are no variants"
  | [a] => "`" ++ a ++ "`"
  | [a, c] => "`" ++ a ++ "` or `" ++ c ++ "`"
  | _ => "one of " ++ ", ".intercalate (names.map fun n => "`" ++ n ++ "`")

/-- A variant name, as a string. -/
def variantName (names : List String) : Reader Nat := fixPosition do
  match ← whitespace b with
  | none => failAhead b "EOF while parsing a value"
  | some c =>
    if c == ch '"' then
      eat
      let s ← string b
      match names.idxOf? s with
      | some i => pure i
      | none => complain ("unknown variant `" ++ s ++ "`, expected " ++ oneOf names)
    else invalidType b "variant identifier"

/-- A `null` standing for a variant without data. -/
def unitValue : Reader Unit := fixPosition do
  match ← whitespace b with
  | none => failAhead b "EOF while parsing a value"
  | some c => if c == ch 'n' then do eat; ident b "ull".toUTF8.toList else invalidType b "unit"

/-- The colon after an object key. -/
def colon : Reader Unit := do
  match ← whitespace b with
  | some c => if c == ch ':' then eat else failAhead b "expected `:`"
  | none => failAhead b "EOF while parsing an object"

/-- A variant without data: its name as a string, or an object `{"name": null}`. -/
def variant (names : List String) : Reader Nat := do
  match ← whitespace b with
  | none => failAhead b "EOF while parsing a value"
  | some c =>
    if c == ch '{' then
      eat
      let i ← variantName b names
      colon b
      unitValue b
      match ← whitespace b with
      | some c => if c == ch '}' then do eat; pure i else fail "expected value"
      | none => fail "EOF while parsing an object"
    else if c == ch '"' then variantName b names
    else failAhead b "expected value"

/-- The closing bracket of an array whose elements have all been read. -/
def endArray : Reader Unit := do
  match ← whitespace b with
  | none => failAhead b "EOF while parsing a list"
  | some c =>
    if c == ch ']' then eat
    else if c == ch ',' then
      eat
      match ← whitespace b with
      | some d => if d == ch ']' then failAhead b "trailing comma" else failAhead b "trailing characters"
      | none => failAhead b "trailing characters"
    else failAhead b "trailing characters"

/-- The closing brace of an object whose members have all been read. -/
def endObject : Reader Unit := do
  match ← whitespace b with
  | none => failAhead b "EOF while parsing an object"
  | some c =>
    if c == ch '}' then eat
    else if c == ch ',' then failAhead b "trailing comma"
    else failAhead b "trailing characters"

/-- Moves to the next array element: `false` at the closing bracket. -/
def nextElement (first : Bool) : Reader Bool := do
  let c ← whitespace b
  let c ← match c with
    | some c =>
      if c == ch ']' then return false
      else if c == ch ',' && !first then do eat; whitespace b
      else if first then pure (some c)
      else failAhead b "expected `,` or `]`"
    | none => failAhead b "EOF while parsing a list"
  match c with
  | some c => if c == ch ']' then failAhead b "trailing comma" else pure true
  | none => failAhead b "EOF while parsing a value"

/-- Moves to the next object key: `false` at the closing brace. -/
def nextKey (first : Bool) : Reader Bool := do
  let c ← whitespace b
  let c ← match c with
    | some c =>
      if c == ch '}' then return false
      else if c == ch ',' && !first then do eat; whitespace b
      else if first then pure (some c)
      else failAhead b "expected `,` or `\x7d`"
    | none => failAhead b "EOF while parsing an object"
  match c with
  | some c =>
    if c == ch '"' then pure true
    else if c == ch '}' then failAhead b "trailing comma"
    else failAhead b "key must be a string"
  | none => failAhead b "EOF while parsing a value"

/-- An array read element by element, then its closing bracket; a failure inside wins over
one at the end, but the end is looked for either way. -/
def array {α : Type} (elements : Reader α) (expected : String) : Reader α := fixPosition do
  match ← whitespace b with
  | none => failAhead b "EOF while parsing a value"
  | some c =>
    if c == ch '[' then
      eat
      let r ← observe elements
      let e ← observe (endArray b)
      match r, e with
      | .ok v, .ok () => pure v
      | .error f, _ => throw f
      | _, .error f => throw f
    else invalidType b expected

/-- Array elements, each read by `element`. -/
def elements {α : Type} (element : Reader α) : Reader (List α) := go true [] (b.size + 1)
where
  go (first : Bool) (acc : List α) : Nat → Reader (List α)
    | 0 => pure acc.reverse
    | fuel + 1 => do
      if ← nextElement b first then go false ((← element) :: acc) fuel
      else pure acc.reverse

/-- Skips any value. Nested containers are tracked on an explicit stack. -/
def skipValue : Reader Unit := outer [] none (b.size + 1)
where
  /-- Skips the rest of a number after its optional sign. -/
  skipNumber : Reader Unit := do
    let c ← peekOrNull b
    if c != 0 then eat
    if c == ch '0' then
      if isDigit (← peekOrNull b) then failAhead b "invalid number" else pure ()
    else if c ≥ ch '1' && c ≤ ch '9' then skipDigits b
    else fail "invalid number"
    let c ← peekOrNull b
    if c == ch '.' then
      eat
      let d ← peekOrNull b
      if !isDigit d then failAhead b "invalid number"
      skipDigits b
      let e ← peekOrNull b
      if e == ch 'e' || e == ch 'E' then skipExponent
    else if c == ch 'e' || c == ch 'E' then skipExponent
  /-- Skips an exponent from its letter on. -/
  skipExponent : Reader Unit := do
    eat
    let s ← peekOrNull b
    if s == ch '+' || s == ch '-' then eat
    let d ← peekOrNull b
    if d != 0 then eat
    if !isDigit d then fail "invalid number"
    skipDigits b
  /-- Looks for what follows a finished value inside `frame`; returns the frame to continue
  in, or `none` when the outermost container closed. -/
  close (stack : List UInt8) (frame : UInt8) (acceptComma : Bool) :
      Nat → Reader (Option (UInt8 × List UInt8))
    | 0 => pure none
    | fuel + 1 => do
      match ← whitespace b with
      | some c =>
        if c == ch ',' && acceptComma then do eat; pure (some (frame, stack))
        else if (c == ch ']' && frame == ch '[') || (c == ch '}' && frame == ch '{') then
          eat
          match stack with
          | f :: rest => close rest f true fuel
          | [] => pure none
        else if acceptComma then
          if frame == ch '[' then failAhead b "expected `,` or `]`"
          else failAhead b "expected `,` or `\x7d`"
        else pure (some (frame, stack))
      | none =>
        if frame == ch '[' then failAhead b "EOF while parsing a list"
        else failAhead b "EOF while parsing an object"
  /-- One round: a value, then the punctuation after it. -/
  outer (stack : List UInt8) (enclosing : Option UInt8) : Nat → Reader Unit
    | 0 => pure ()
    | fuel + 1 => do
      let some c ← whitespace b | failAhead b "EOF while parsing a value"
      let (opened, stack) ← do
        if c == ch 'n' then do eat; ident b "ull".toUTF8.toList; pure (none, stack)
        else if c == ch 't' then do eat; ident b "rue".toUTF8.toList; pure (none, stack)
        else if c == ch 'f' then do eat; ident b "alse".toUTF8.toList; pure (none, stack)
        else if c == ch '-' then do eat; skipNumber; pure (none, stack)
        else if isDigit c then do skipNumber; pure (none, stack)
        else if c == ch '"' then do eat; skipString b; pure (none, stack)
        else if c == ch '[' || c == ch '{' then do
          eat
          pure (some c, match enclosing with
            | some e => e :: stack
            | none => stack)
        else failAhead b "expected value"
      let start : Option (UInt8 × Bool × List UInt8) :=
        match opened with
        | some f => some (f, false, stack)
        | none =>
          match enclosing with
          | some f => some (f, true, stack)
          | none =>
            match stack with
            | f :: rest => some (f, true, rest)
            | [] => none
      match start with
      | none => pure ()
      | some (frame, acceptComma, stack) =>
        match ← close stack frame acceptComma (b.size + 1) with
        | none => pure ()
        | some (frame, stack) =>
          if frame == ch '{' then
            match ← whitespace b with
            | some c =>
              if c == ch '"' then eat else failAhead b "key must be a string"
            | none => failAhead b "EOF while parsing an object"
            skipString b
            colon b
          outer stack (some frame) fuel

end

/-- The option names, in field order. -/
def fieldNames : List String :=
  ["nativeMinThreshold", "resultLimit", "alertNativeUnsupported", "enableNativeCrossJoin",
    "enableNativeTopCount", "enableNativeFilter", "nativeSafePatterns", "maxEvalDepth",
    "queryTimeoutMs"]

/-- Reads field number `k` into the options. -/
def readField (b : ByteArray) (c : EngineConfig) : Nat → Reader EngineConfig
  | 0 => do pure { c with nativeMinThreshold := ← unsignedValue b "usize" }
  | 1 => do pure { c with resultLimit := ← unsignedValue b "usize" }
  | 2 => do
    let i ← variant b (AlertMode.all.map AlertMode.name)
    pure { c with alertNativeUnsupported := AlertMode.all.getD i .silentFallback }
  | 3 => do pure { c with enableNativeCrossJoin := ← boolValue b }
  | 4 => do pure { c with enableNativeTopCount := ← boolValue b }
  | 5 => do pure { c with enableNativeFilter := ← boolValue b }
  | 6 => do
    let names := SafePattern.all.map SafePattern.name
    let ps ← array b (elements b (variant b names)) "a sequence"
    pure { c with nativeSafePatterns := ps.map fun i => SafePattern.all.getD i .storedMeasure }
  | 7 => do pure { c with maxEvalDepth := ← unsignedValue b "usize" }
  | _ => do pure { c with queryTimeoutMs := ← optionalUnsigned b }

/-- The options as an object: fields in any order, each at most once. -/
def members (b : ByteArray) : Reader EngineConfig := go true {} [] (b.size + 1)
where
  go (first : Bool) (c : EngineConfig) (seen : List Nat) : Nat → Reader EngineConfig
    | 0 => pure c
    | fuel + 1 => do
      if !(← nextKey b first) then return c
      eat
      let key ← string b
      match fieldNames.idxOf? key with
      | some k =>
        if seen.contains k then complain ("duplicate field `" ++ key ++ "`")
        colon b
        go false (← readField b c k) (k :: seen) fuel
      | none =>
        colon b
        skipValue b
        go false c seen fuel

/-- The options as an array of values in field order; missing ones keep their defaults. -/
def positional (b : ByteArray) : Reader EngineConfig := go true {} 0 (fieldNames.length)
where
  go (first : Bool) (c : EngineConfig) (k : Nat) : Nat → Reader EngineConfig
    | 0 => pure c
    | fuel + 1 => do
      if ← nextElement b first then go false (← readField b c k) (k + 1) fuel
      else pure c

/-- The whole options document. -/
def document (b : ByteArray) : Reader EngineConfig := do
  let c ← fixPosition do
    match ← whitespace b with
    | none => failAhead b "EOF while parsing a value"
    | some c =>
      if c == ch '[' then
        eat
        let r ← observe (positional b)
        let e ← observe (endArray b)
        match r, e with
        | .ok v, .ok () => pure v
        | .error f, _ => throw f
        | _, .error f => throw f
      else if c == ch '{' then
        eat
        let r ← observe (members b)
        let e ← observe (endObject b)
        match r, e with
        | .ok v, .ok () => pure v
        | .error f, _ => throw f
        | _, .error f => throw f
      else invalidType b "struct EngineConfig"
  match ← whitespace b with
  | some _ => failAhead b "trailing characters"
  | none => pure c

/-- Line and column (both as printed) of a byte index. -/
def position (b : ByteArray) (i : Nat) : Nat × Nat :=
  let before := (List.range i).map (byteAt b)
  let lineStart := match before.reverse.findIdx? (· == 10) with
    | some k => i - k
    | none => 0
  let lines := ((List.range lineStart).map (byteAt b)).count 10
  (lines + 1, i - lineStart)

end OlapCalc.ConfigReader

namespace OlapCalc.EngineConfig

/-- Reads options from JSON text and validates them. -/
def ofText (text : String) : Except OlapError EngineConfig :=
  let b := text.toUTF8
  match (ConfigReader.document b).run.run 0 with
  | (.ok c, _) => c.validate
  | (.error f, _) =>
    let place := match f.at? with
      | some i =>
        let (line, column) := ConfigReader.position b i
        " at line " ++ toString line ++ " column " ++ toString column
      | none => ""
    throw (.config (f.message ++ place))

/-- Reads options given as a JSON value: a string is read as text, anything else is written
out compactly (members in name order) and then read. -/
def ofJson (j : Json) : Except OlapError EngineConfig :=
  match j with
  | .str s => ofText s
  | other => ofText (Json.canonical other).render

end OlapCalc.EngineConfig
