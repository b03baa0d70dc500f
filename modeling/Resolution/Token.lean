import Resolution.Text.Blank
import Resolution.Text.Quoted

/-!
# Tokens

The text of a clause is cut into parentheses and words. A word runs up to the next blank or
parenthesis. A semicolon belongs to no token, and a text that holds one has no tokens.
-/

namespace Resolution

inductive Token where
  | opening
  | closing
  | word (text : String)
deriving DecidableEq, Repr

/-- The character can be part of a word. -/
def isLetter (c : Char) : Bool :=
  !(c = ';' || Text.isBlank c || c = '(' || c = ')')

/-- Why a text is not a clause. -/
inductive ReadError where
  | unexpectedCharacter (c : Char)
  | noOpening
  | noClosing
  | strayClosing
  | badNesting
  | unbalanced
deriving DecidableEq, Repr

def ReadError.message : ReadError → String
  | unexpectedCharacter c => "unexpected character " ++ Text.quote (String.singleton c)
  | noOpening => "clause must start with '('"
  | noClosing => "clause must end with ')'"
  | strayClosing => "unbalanced ')'"
  | badNesting => "nested list must have the form (not atom)"
  | unbalanced => "unbalanced parentheses"

namespace Token

def text : Token → String
  | opening => "("
  | closing => ")"
  | word w => w

/-- The tokens `ts` behind a word whose characters are given from its last to its first. -/
def endWord (letters : List Char) (ts : List Token) : List Token :=
  if letters.isEmpty then ts else .word (.ofList letters.reverse) :: ts

/-- The tokens of a text that continues the word of the given letters. -/
def scan (letters : List Char) : List Char → Except ReadError (List Token)
  | [] => .ok (endWord letters [])
  | c :: cs =>
    if c = ';' then .error (.unexpectedCharacter c)
    else if Text.isBlank c then (scan [] cs).map (endWord letters)
    else if c = '(' then (scan [] cs).map fun ts => endWord letters (.opening :: ts)
    else if c = ')' then (scan [] cs).map fun ts => endWord letters (.closing :: ts)
    else scan (c :: letters) cs

end Token

def tokenize (s : String) : Except ReadError (List Token) :=
  Token.scan [] s.toList

end Resolution
