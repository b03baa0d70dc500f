import Resolution.Clause.Normal
import Resolution.Token

/-!
# Reading a clause

A clause is written as its literals between parentheses. A word stands for the positive literal
over it; a word in parentheses behind the keyword `not`, in any case, for the negative one.
-/

namespace Resolution

/-- The word is the keyword of negation. -/
def isNegation (word : String) : Bool :=
  word.toList.map Char.toLower = ['n', 'o', 't']

/-- Reads literals up to the last token, which the caller knows to close the clause. -/
def readLiterals : List Token → Except ReadError (List Literal)
  | [] => .error .unbalanced
  | [_] => .ok []
  | .word atom :: ts => (readLiterals ts).map (⟨true, atom⟩ :: ·)
  | .closing :: _ => .error .strayClosing
  | .opening :: .word keyword :: .word atom :: .closing :: ts =>
    if isNegation keyword then (readLiterals ts).map (⟨false, atom⟩ :: ·)
    else .error .badNesting
  | .opening :: _ => .error .badNesting

/-- The literals of a clause as they are written. -/
def literalsOfTokens (ts : List Token) : Except ReadError (List Literal) :=
  if ts.head? ≠ some .opening then .error .noOpening
  else if ts.getLast? ≠ some .closing then .error .noClosing
  else readLiterals ts.tail

namespace Clause

/-- The clause as it is written, before anything is done to its literals. -/
def written (s : String) : Except ReadError Clause := do
  let ts ← tokenize s
  let literals ← literalsOfTokens ts
  return { literals }

/-- The clause in normal form. -/
def read (s : String) : Except ReadError Clause :=
  (written s).map standardize

end Clause

end Resolution
