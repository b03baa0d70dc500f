import Resolution.Clause.Normal
import Resolution.ClauseSet

/-!
# Knowledge bases

Clauses become a knowledge base one after the other. Each is brought into normal form; an empty
one is dropped, and of equal ones the first stays.
-/

namespace Resolution

/-- A knowledge base, and the empty clauses that were dropped on the way to it. -/
structure KnowledgeBase where
  clauses : ClauseSet
  dropped : List Clause

namespace KnowledgeBase

def add (kb : KnowledgeBase) (c : Clause) : KnowledgeBase :=
  let s := c.standardize
  if s.isEmpty then { kb with dropped := kb.dropped ++ [s] }
  else { kb with clauses := kb.clauses.insert s }

def ofList (cs : List Clause) : KnowledgeBase :=
  cs.foldl add ⟨∅, []⟩

def toList (kb : KnowledgeBase) : List Clause :=
  kb.clauses.toList

end KnowledgeBase

end Resolution
