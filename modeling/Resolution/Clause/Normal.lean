import Resolution.Clause

/-!
# Normal forms

A clause is brought into normal form by sorting its literals and cleaning the result. Cleaning
keeps one copy of a literal that repeats. Of a literal and its negation it keeps neither: the
pair is taken out, in all its copies, and what is left remains a clause.
-/

namespace Resolution

/-- Puts `l` before the first literal that is not below it. -/
def insertLiteral (l : Literal) : List Literal → List Literal
  | [] => [l]
  | m :: ms => if m < l then m :: insertLiteral l ms else l :: m :: ms

def sortLiterals (ls : List Literal) : List Literal :=
  ls.foldr insertLiteral []

/-- Cleans from left to right. A literal is settled once it or its negation has been met;
`live` holds the literals that are not settled, and a settled literal is passed over. -/
def cleanFrom (live : List Literal) : List Literal → List Literal
  | [] => []
  | l :: ls =>
    if l ∈ live then
      let rest := live.filter fun m => m ≠ l ∧ m ≠ l.negate
      if l.negate ∈ live then cleanFrom rest ls else l :: cleanFrom rest ls
    else cleanFrom live ls

def clean (ls : List Literal) : List Literal :=
  cleanFrom ls ls

/-- The normal form, with the record of `c`. -/
def Clause.standardize (c : Clause) : Clause :=
  { c with literals := clean (sortLiterals c.literals) }

@[simp]
theorem Clause.source_standardize (c : Clause) : c.standardize.source = c.source := rfl

@[simp]
theorem Clause.step_standardize (c : Clause) : c.standardize.step = c.step := rfl

end Resolution
