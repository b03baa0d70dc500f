import Resolution.Clause

/-!
# Subsumption

A clause subsumes another when its literals are among the other's and the other has more. Order
and repetition play no part.
-/

namespace Resolution

def Clause.subsumes (c d : Clause) : Bool :=
  c.literals.all (· ∈ d.literals) && d.literals.any (· ∉ c.literals)

theorem Clause.subsumes_iff {c d : Clause} :
    c.subsumes d = true ↔
      (∀ l ∈ c.literals, l ∈ d.literals) ∧ ∃ l ∈ d.literals, l ∉ c.literals := by
  simp [Clause.subsumes]

/-- The clauses of the list that another of its clauses subsumes. -/
def subsumed (cs : List Clause) : List Clause :=
  cs.filter fun c => cs.any fun d => d.subsumes c

/-- The clauses of the list that are left when those are dropped. -/
def irredundant (cs : List Clause) : List Clause :=
  cs.filter fun c => (subsumed cs).all fun d => d.literals ≠ c.literals

end Resolution
