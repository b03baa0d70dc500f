import Resolution.KnowledgeBase.Lines

/-!
# Loading with reports

While a knowledge base is loaded, every empty clause can be reported at the moment it is dropped.
What has been reported by then stays reported when loading fails.
-/

namespace Resolution

/-- A computation that reports clauses and may fail on a line. -/
abbrev Reporting := ExceptT LineError (StateM (List Clause))

namespace Reporting

/-- The result, and what was reported on the way to it. -/
def outcome {α : Type} (x : Reporting α) : Except LineError α × List Clause :=
  x.run.run []

def report (c : Clause) : Reporting Unit :=
  modify (· ++ [c])

/-- Adds the normal form of the clause, or reports it if it is empty. -/
def add (known : ClauseSet) (c : Clause) : Reporting ClauseSet := do
  let s := c.standardize
  if s.isEmpty then
    report s
    return known
  else
    return known.insert s

/-- The knowledge base on the lines. All of them are read before the first clause is added. -/
def load (lines : List Line) : Reporting ClauseSet := do
  let cs ← MonadExcept.ofExcept (readLines 1 lines)
  cs.foldlM add ∅

end Reporting

end Resolution
