import Resolution.Json
import Resolution.Text.Integer

/-!
# Reading JSON

The grammar is that of the standard, and the names of the numbers that are not finite are read
too. Each reader takes a value from the front of the text and gives it with the rest. The first
thing from the left that cannot be read is the error: text that is no JSON, an integer with too
many digits, or a value inside too many others. The limit on digits is that of all numerals and
can be set or lifted.

Reading recurses at most twice for each character, once for a list and once for its first item, so
a budget of one more than twice the length of the text is never used up.
-/

namespace Resolution.Json

/-- The digits of a numeral, and the limit that they exceed. -/
structure Excess where
  digits : Nat
  limit : Nat
deriving DecidableEq, Repr

/-- Why a text cannot be read. -/
inductive Refusal where
  | malformed
  /-- An integer of more digits than are read. -/
  | longNumeral (excess : Excess)
  /-- A list or an object inside more of them than are read. -/
  | tooDeep (container : Kind)
deriving DecidableEq, Repr

def Refusal.message : Refusal → String
  | malformed => "not a JSON document"
  | longNumeral excess =>
    "Exceeds the limit (" ++ toString excess.limit ++
      " digits) for integer string conversion: value has " ++ toString excess.digits ++
      " digits; use sys.set_int_max_str_digits() to increase the limit"
  | tooDeep container =>
    "maximum recursion depth exceeded while decoding a JSON " ++
      (if container = .obj then "object" else "array") ++ " from a unicode string"

/-- The lists and objects that may stand inside each other. -/
def maxDepth : Nat := 989

/-- The white space that may stand between the parts of a document. -/
def isSpace (c : Char) : Bool :=
  c = ' ' || c = '\t' || c = '\n' || c = '\r'

def skipSpace (cs : List Char) : List Char :=
  cs.dropWhile isSpace

/-- The value of four hexadecimal digits. -/
def readUnit (a b c d : Char) : Option Nat := do
  let a ← Text.hexValue? a
  let b ← Text.hexValue? b
  let c ← Text.hexValue? c
  let d ← Text.hexValue? d
  return ((a * 16 + b) * 16 + c) * 16 + d

def isHighSurrogate (unit : Nat) : Bool :=
  0xD800 ≤ unit && unit ≤ 0xDBFF

def isLowSurrogate (unit : Nat) : Bool :=
  0xDC00 ≤ unit && unit ≤ 0xDFFF

/-- The code point of a UTF-16 unit that stands alone. -/
def pointOfUnit (unit : Nat) : CodePoint :=
  if isHighSurrogate unit || isLowSurrogate unit then .surrogate unit else .char (Char.ofNat unit)

def charOfPair (high low : Nat) : Char :=
  Char.ofNat (0x10000 + (high - 0xD800) * 0x400 + (low - 0xDC00))

/-- The character that a backslash and one letter stand for. -/
def shortEscape? : Char → Option Char
  | '"' => some '"'
  | '\\' => some '\\'
  | '/' => some '/'
  | 'b' => some '\x08'
  | 'f' => some '\x0c'
  | 'n' => some '\n'
  | 'r' => some '\r'
  | 't' => some '\t'
  | _ => none

/-- The code points of a string up to the quotation mark that ends it, and what follows. `high` is
a surrogate that waits for its other half. -/
def readPoints (high : Option Nat) : List Char → Option (List CodePoint × List Char)
  | [] => none
  | '"' :: cs => some ((high.map pointOfUnit).toList, cs)
  | '\\' :: 'u' :: a :: b :: c :: d :: cs => do
    let unit ← readUnit a b c d
    match high with
    | some h =>
      if isLowSurrogate unit then
        let (ps, rest) ← readPoints none cs
        return (.char (charOfPair h unit) :: ps, rest)
      else if isHighSurrogate unit then
        let (ps, rest) ← readPoints (some unit) cs
        return (pointOfUnit h :: ps, rest)
      else
        let (ps, rest) ← readPoints none cs
        return (pointOfUnit h :: pointOfUnit unit :: ps, rest)
    | none =>
      if isHighSurrogate unit then readPoints (some unit) cs
      else
        let (ps, rest) ← readPoints none cs
        return (pointOfUnit unit :: ps, rest)
  | '\\' :: e :: cs => do
    let c ← shortEscape? e
    let (ps, rest) ← readPoints none cs
    return ((high.map pointOfUnit).toList ++ .char c :: ps, rest)
  | c :: cs =>
    if c.toNat < 0x20 ∨ c = '\\' then none
    else do
      let (ps, rest) ← readPoints none cs
      return ((high.map pointOfUnit).toList ++ .char c :: ps, rest)

/-- The rest of a string behind its first quotation mark. -/
def readString (cs : List Char) : Except Refusal (CodeText × List Char) :=
  match readPoints none cs with
  | some (points, rest) => .ok (⟨points⟩, rest)
  | none => .error .malformed

def digitsValue (ds : List Char) : Nat :=
  ds.foldl (fun n d => n * 10 + (d.toNat - '0'.toNat)) 0

/-- The digits of a numeral without needless zeros. -/
def readWhole (cs : List Char) : Except Refusal (List Char × List Char) :=
  let rest := cs.dropWhile Char.isDigit
  match cs.takeWhile Char.isDigit with
  | [] => .error .malformed
  | '0' :: more => .ok (['0'], more ++ rest)
  | ds => .ok (ds, rest)

/-- The digits behind a point, of which there may be none. -/
def readFraction (cs : List Char) : List Char × List Char :=
  match cs with
  | '.' :: rest =>
    let ds := rest.takeWhile Char.isDigit
    if ds.isEmpty then ([], cs) else (ds, rest.dropWhile Char.isDigit)
  | _ => ([], cs)

def readSign : List Char → Bool × List Char
  | '-' :: cs => (true, cs)
  | '+' :: cs => (false, cs)
  | cs => (false, cs)

/-- The power of ten that a number is scaled by, if it is. -/
def readExponent (cs : List Char) : Option Int × List Char :=
  match cs with
  | e :: rest =>
    let (negative, rest) := readSign rest
    let ds := rest.takeWhile Char.isDigit
    if (e = 'e' ∨ e = 'E') ∧ !ds.isEmpty then
      let n := Int.ofNat (digitsValue ds)
      (some (if negative then -n else n), rest.dropWhile Char.isDigit)
    else (none, cs)
  | [] => (none, [])

/-- The limit that a number of digits exceeds, if it does. -/
def excess? (limit : Option Nat) (digits : Nat) : Option Excess :=
  limit.bind fun limit => if limit < digits then some ⟨digits, limit⟩ else none

section

variable (limit : Option Nat)

def integer (negative : Bool) (ds : List Char) : Except Refusal Json :=
  let n := Int.ofNat (digitsValue ds)
  match excess? limit ds.length with
  | some excess => .error (.longNumeral excess)
  | none => .ok (.int (if negative then -n else n))

/-- A number behind its sign. It is an integer unless it has a fraction or an exponent. -/
def readUnsigned (negative : Bool) (cs : List Char) : Except Refusal (Json × List Char) := do
  let (whole, rest) ← readWhole cs
  let (fraction, rest) := readFraction rest
  let (exponent, rest) := readExponent rest
  if fraction.isEmpty ∧ exponent.isNone then return (← integer limit negative whole, rest)
  else
    let x := Decimal.toFloat
      ⟨digitsValue (whole ++ fraction), exponent.getD 0 - fraction.length⟩
    return (.real (if negative then -x else x), rest)

/-- A number, which may be one that is not finite. -/
def readNumber : List Char → Except Refusal (Json × List Char)
  | 'N' :: 'a' :: 'N' :: rest => .ok (.real (.ofBits 0x7FF8000000000000), rest)
  | 'I' :: 'n' :: 'f' :: 'i' :: 'n' :: 'i' :: 't' :: 'y' :: rest =>
    .ok (.real Decimal.infinity, rest)
  | '-' :: 'I' :: 'n' :: 'f' :: 'i' :: 'n' :: 'i' :: 't' :: 'y' :: rest =>
    .ok (.real (-Decimal.infinity), rest)
  | '-' :: cs => readUnsigned limit true cs
  | cs => readUnsigned limit false cs

mutual

/-- A value that `room` lists and objects may stand around. -/
def readValue : (budget room : Nat) → List Char → Except Refusal (Json × List Char)
  | 0, _, _ => .error .malformed
  | budget + 1, room, cs =>
    match cs with
    | 'n' :: 'u' :: 'l' :: 'l' :: rest => .ok (.null, rest)
    | 't' :: 'r' :: 'u' :: 'e' :: rest => .ok (.bool true, rest)
    | 'f' :: 'a' :: 'l' :: 's' :: 'e' :: rest => .ok (.bool false, rest)
    | '"' :: rest => (readString rest).map fun (t, rest) => (.str t, rest)
    | '[' :: rest =>
      match room with
      | 0 => .error (.tooDeep .arr)
      | room + 1 =>
        match skipSpace rest with
        | ']' :: rest => .ok (.arr [], rest)
        | rest => (readItems budget room rest).map fun (vs, rest) => (.arr vs, rest)
    | '{' :: rest =>
      match room with
      | 0 => .error (.tooDeep .obj)
      | room + 1 =>
        match skipSpace rest with
        | '}' :: rest => .ok (.obj [], rest)
        | rest =>
          (readFields budget room rest).map fun (fs, rest) => (.obj (distinctFields fs), rest)
    | cs => readNumber limit cs

/-- One or more items, up to the bracket that ends them. -/
def readItems : (budget room : Nat) → List Char → Except Refusal (List Json × List Char)
  | 0, _, _ => .error .malformed
  | budget + 1, room, cs => do
    let (v, rest) ← readValue budget room cs
    match skipSpace rest with
    | ',' :: rest =>
      let (vs, rest) ← readItems budget room (skipSpace rest)
      return (v :: vs, rest)
    | ']' :: rest => return ([v], rest)
    | _ => .error .malformed

/-- One or more fields, up to the brace that ends them. -/
def readFields : (budget room : Nat) → List Char →
    Except Refusal (List (CodeText × Json) × List Char)
  | 0, _, _ => .error .malformed
  | budget + 1, room, cs =>
    match cs with
    | '"' :: rest => do
      let (k, rest) ← readString rest
      match skipSpace rest with
      | ':' :: rest =>
        let (v, rest) ← readValue budget room (skipSpace rest)
        match skipSpace rest with
        | ',' :: rest =>
          let (fs, rest) ← readFields budget room (skipSpace rest)
          return ((k, v) :: fs, rest)
        | '}' :: rest => return ([(k, v)], rest)
        | _ => .error .malformed
      | _ => .error .malformed
    | _ => .error .malformed

end

end

/-- The value that a document holds, with nothing but white space around it. -/
def parse (s : String) (limit : Option Nat := some Text.maxDigits) : Except Refusal Json := do
  let cs := skipSpace s.toList
  let (v, rest) ← readValue limit (2 * cs.length + 1) maxDepth cs
  if (skipSpace rest).isEmpty then return v else .error .malformed

end Resolution.Json
