import Resolution.ClauseSet
import Resolution.Resolvent

/-!
# Rounds of inference

A round resolves every clause of the knowledge base with every clause known so far, and then adds
what is new to the known set. Empty resolvents are contradictions: they are reported and never
added. The known set does not change while a round resolves, so the resolvents of a round may
repeat; the first copy of each is the one that is added, stamped with the number of the round.
-/

namespace Resolution

/-- The resolvents of each clause of `kb` with each known clause. -/
def resolvents (kb : List Clause) (known : ClauseSet) : List Clause :=
  kb.flatMap fun c => known.toList.flatMap fun d => resolve c d

def contradictions (kb : List Clause) (known : ClauseSet) : List Clause :=
  (resolvents kb known).filter Clause.isEmpty

/-- The resolvents that are neither empty nor known, with repeats. -/
def newResolvents (kb : List Clause) (known : ClauseSet) : List Clause :=
  (resolvents kb known).filter fun r => !r.isEmpty && !known.contains r

/-- What adding a batch of clauses makes of the known set, of the batch itself, and which of its
clauses were added. -/
structure Absorption where
  known : ClauseSet
  added : List Clause
  batch : List Clause

/-- Adds the clauses of a batch in turn. Those that are added are stamped with the round. -/
def absorb (round : Int) (known : ClauseSet) : List Clause → Absorption
  | [] => ⟨known, [], []⟩
  | c :: cs =>
    if known.contains c then
      let rest := absorb round known cs
      { rest with batch := c :: rest.batch }
    else
      let stamped := { c with step := round }
      let rest := absorb round (known.insert stamped) cs
      ⟨rest.known, stamped :: rest.added, stamped :: rest.batch⟩

/-- What is added stands behind what was known. -/
theorem toList_known_absorb (round : Int) (known : ClauseSet) (cs : List Clause) :
    (absorb round known cs).known.toList = known.toList ++ (absorb round known cs).added := by
  induction cs generalizing known with
  | nil => simp [absorb]
  | cons c cs ih =>
    unfold absorb
    split
    · exact ih known
    · have hc : known.contains { c with step := round } = false := by
        simpa [ClauseSet.contains] using ‹¬known.contains c = true›
      simp [ih, ClauseSet.toList_insert, hc]

/-- A batch keeps its length and the literals of its clauses. -/
theorem literals_batch_absorb (round : Int) (known : ClauseSet) (cs : List Clause) :
    (absorb round known cs).batch.map Clause.literals = cs.map Clause.literals := by
  induction cs generalizing known with
  | nil => rfl
  | cons c cs ih => unfold absorb; split <;> simp [ih]

/-- A round as it went: its number, the size of the known set before it, the contradictions it
met, and what it made of its new resolvents. -/
structure Round extends Absorption where
  number : Int
  before : Nat
  contradictions : List Clause

def Round.perform (kb : List Clause) (number : Int) (known : ClauseSet) : Round where
  toAbsorption := absorb number known (newResolvents kb known)
  number := number
  before := known.size
  contradictions := Resolution.contradictions kb known

end Resolution
