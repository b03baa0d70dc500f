import Resolution.Literal
import Resolution.Text.Lines

/-!
# Clauses

A clause is a sequence of literals read as their disjunction, with a record of where it comes
from: the names of its parents and the round that derived it. Clauses count as the same when
their literals do; the record takes no part.
-/

namespace Resolution

structure Clause where
  literals : List Literal
  source : List String := []
  step : Int := 0
deriving DecidableEq, Repr

namespace Clause

/-- The clause without literals, which nothing satisfies. -/
def isEmpty (c : Clause) : Bool :=
  c.literals.isEmpty

theorem isEmpty_iff {c : Clause} : c.isEmpty = true ↔ c.literals = [] := by
  simp [isEmpty]

theorem isEmpty_eq_false_iff {c : Clause} : c.isEmpty = false ↔ c.literals ≠ [] := by
  simp [isEmpty]

/-- The literals separated by single spaces. -/
def format (c : Clause) : String :=
  " ".intercalate (c.literals.map Literal.name)

/-- What a clause is called in sources, traces and graphs. -/
def name (c : Clause) : String :=
  if c.isEmpty then "()" else c.format

def display (c : Clause) : String :=
  "Clause(" ++ c.name ++ ")"

/-- The two parents of a derived clause. -/
def parents? (c : Clause) : Option (String × String) :=
  match c.source with
  | left :: right :: _ => some (left, right)
  | _ => none

/-- One clause per line. -/
def listing (cs : List Clause) : String :=
  Text.unlines (cs.map format)

end Clause

end Resolution
