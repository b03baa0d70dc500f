import Resolution.ClauseSet
import Resolution.Resolvent

/-!
# Derivations

What can be derived from a set of clauses by resolving with the clauses of a knowledge base, said
without rounds: a derivation takes one known clause and resolves, step after step, what it has
with some clause of the knowledge base. No step may yield the empty clause.

Beside it stands resolution as textbooks have it, on sets of literals: only the two clashing
literals go, and whatever else clashes stays.
-/

namespace Resolution

/-- The literals that `n` steps of resolution with clauses of `kb` can lead to from `known`. -/
inductive Derivation (kb known : List Clause) : Nat → List Literal → Prop where
  | given {c : Clause} : c ∈ known → Derivation kb known 0 c.literals
  | resolve {n : Nat} {ls : List Literal} {c r : Clause} :
      Derivation kb known n ls → c ∈ kb → r ∈ Resolution.resolve c { literals := ls } →
      r.isEmpty = false → Derivation kb known (n + 1) r.literals

/-- The literals can be derived in some number of steps. -/
def Derivable (kb known : List Clause) (ls : List Literal) : Prop :=
  ∃ n, Derivation kb known n ls

/-- The sets of literals that resolution on sets derives from `kb`, one of the two parents being
a clause of `kb` each time. A list stands for the set of its members. -/
inductive InputDerivable (kb : List Clause) : List Literal → Prop where
  | given {c : Clause} : c ∈ kb → InputDerivable kb c.literals
  | resolve {c : Clause} {l : Literal} {ls : List Literal} :
      c ∈ kb → l ∈ c.literals → InputDerivable kb ls → l.negate ∈ ls →
      InputDerivable kb (c.literals.filter (· ≠ l) ++ ls.filter (· ≠ l.negate))

/-- Resolving looks at literals and, for the names of the parents, at nothing else. -/
theorem resolve_literals_left (a b : Clause) :
    resolve { literals := a.literals } b = resolve a b :=
  rfl

theorem resolve_literals_right (a b : Clause) :
    resolve a { literals := b.literals } = resolve a b :=
  rfl

end Resolution
