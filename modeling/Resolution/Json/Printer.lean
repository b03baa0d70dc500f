import Resolution.Json

/-!
# Writing JSON

Items and fields stand on lines of their own, indented by two spaces for each level. In a string
the characters from the space to the tilde stand for themselves, the quotation mark and the
backslash excepted, and every other one is escaped, by its UTF-16 units where no letter is for it.
Numbers that are not finite have names.
-/

namespace Resolution.Json

/-- The letter `u` behind a backslash, and four hexadecimal digits. -/
def unitEscape (unit : Nat) : List Char :=
  '\\' :: 'u' :: Text.hexDigits 4 unit

/-- The UTF-16 units of a character. -/
def utf16Units (c : Char) : List Nat :=
  let n := c.toNat
  if n < 0x10000 then [n] else [0xD800 + (n - 0x10000) / 0x400, 0xDC00 + (n - 0x10000) % 0x400]

def escapeChar (c : Char) : List Char :=
  if c = '"' ∨ c = '\\' then ['\\', c]
  else if c = '\n' then ['\\', 'n']
  else if c = '\r' then ['\\', 'r']
  else if c = '\t' then ['\\', 't']
  else if c = '\x08' then ['\\', 'b']
  else if c = '\x0c' then ['\\', 'f']
  else if 0x20 ≤ c.toNat ∧ c.toNat < 0x7F then [c]
  else (utf16Units c).flatMap unitEscape

def escapePoint : CodePoint → List Char
  | .char c => escapeChar c
  | .surrogate unit => unitEscape unit

def renderString (t : CodeText) : List Char :=
  '"' :: t.points.flatMap escapePoint ++ ['"']

def renderReal (x : Float) : List Char :=
  match displayFloat x with
  | "nan" => "NaN".toList
  | "inf" => "Infinity".toList
  | "-inf" => "-Infinity".toList
  | s => s.toList

/-- The start of a line at some level. -/
def newline (level : Nat) : List Char :=
  '\n' :: List.replicate (2 * level) ' '

mutual

/-- The text of a value that stands at some level. -/
def render (level : Nat) : Json → List Char
  | null => "null".toList
  | bool b => (if b then "true" else "false").toList
  | int n => (toString n).toList
  | real x => renderReal x
  | str t => renderString t
  | arr [] => ['[', ']']
  | arr (v :: vs) =>
    '[' :: newline (level + 1) ++ render (level + 1) v ++ renderItems (level + 1) vs ++
      newline level ++ [']']
  | obj [] => ['{', '}']
  | obj ((k, v) :: rest) =>
    '{' :: newline (level + 1) ++ renderString k ++ [':', ' '] ++ render (level + 1) v ++
      renderFields (level + 1) rest ++ newline level ++ ['}']

/-- The items after the first. -/
def renderItems (level : Nat) : List Json → List Char
  | [] => []
  | v :: vs => ',' :: newline level ++ render level v ++ renderItems level vs

/-- The fields after the first. -/
def renderFields (level : Nat) : List (CodeText × Json) → List Char
  | [] => []
  | (k, v) :: rest =>
    ',' :: newline level ++ renderString k ++ [':', ' '] ++ render level v ++
      renderFields level rest

end

def print (v : Json) : String :=
  .ofList (render 0 v)

end Resolution.Json
