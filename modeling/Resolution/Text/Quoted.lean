import Resolution.Text.Hex
import Resolution.Text.Printable

/-!
# Quoted text

Text shown inside a message is quoted. Apostrophes enclose it, or double quotes when it holds an
apostrophe and no double quote. A backslash, the enclosing mark, and every character that is not
printable are escaped, so the quoted form is one printable line.
-/

namespace Resolution.Text

/-- The mark that encloses `s`. -/
def quoteMark (s : List Char) : Char :=
  if '\x27' ∈ s ∧ '"' ∉ s then '"' else '\x27'

/-- The shortest numeric escape that holds the code point of `c`. -/
def numericEscape (c : Char) : List Char :=
  if c.toNat < 0x100 then '\\' :: 'x' :: hexDigits 2 c.toNat
  else if c.toNat < 0x10000 then '\\' :: 'u' :: hexDigits 4 c.toNat
  else '\\' :: 'U' :: hexDigits 8 c.toNat

/-- The character `c` as it stands between two copies of `mark`. -/
def escapeChar (mark c : Char) : List Char :=
  if c = '\\' ∨ c = mark then ['\\', c]
  else if c = '\t' then ['\\', 't']
  else if c = '\n' then ['\\', 'n']
  else if c = '\r' then ['\\', 'r']
  else if isPrintable c then [c]
  else numericEscape c

def quote (s : String) : String :=
  let mark := quoteMark s.toList
  .ofList (mark :: s.toList.flatMap (escapeChar mark) ++ [mark])

end Resolution.Text
