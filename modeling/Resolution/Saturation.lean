import Resolution.Saturation.Round

/-!
# Saturation

Rounds follow one another until one of them finds nothing new, a limit on their number is
reached, or a stop condition holds. Limit and condition are looked at before every round.

Resolvents bring in no new atoms, so over `n` atoms there are fewer than `3 ^ n` clauses to add:
each atom occurs in a normal form positively, negatively or not at all. Every round but the last
adds one, so `3 ^ n` rounds are enough to come to an end.
-/

namespace Resolution

/-- A condition on the known set and on the number of contradictions reported so far. -/
abbrev StopCondition := ClauseSet → Nat → Bool

def StopCondition.never : StopCondition := fun _ _ => false

/-- How a run came to its end. -/
inductive Ending where
  /-- The round of this number found nothing new. -/
  | fixpoint (round : Int)
  /-- The stop condition held before the round of this number. -/
  | stopped (round : Int)
  | roundLimit
deriving DecidableEq, Repr

structure Run where
  known : ClauseSet
  rounds : List Round
  ending : Ending

namespace Run

def contradictions (run : Run) : List Clause :=
  run.rounds.flatMap Round.contradictions

/-- The run that begins with `round` and goes on as `run` does. -/
def preceded (run : Run) (round : Round) : Run :=
  { run with rounds := round :: run.rounds }

variable (run : Run) (round : Round)

@[simp]
theorem known_preceded : (run.preceded round).known = run.known := rfl

@[simp]
theorem rounds_preceded : (run.preceded round).rounds = round :: run.rounds := rfl

@[simp]
theorem ending_preceded : (run.preceded round).ending = run.ending := rfl

@[simp]
theorem contradictions_preceded :
    (run.preceded round).contradictions = round.contradictions ++ run.contradictions := rfl

end Run

/-- Runs at most `budget` rounds, the first of them numbered `number`, after `reported`
contradictions. -/
def saturateWithin (kb : List Clause) (stop : StopCondition) :
    (budget : Nat) → (number : Int) → (reported : Nat) → (known : ClauseSet) → Run
  | 0, _, _, known => ⟨known, [], .roundLimit⟩
  | budget + 1, number, reported, known =>
    if stop known reported then ⟨known, [], .stopped number⟩
    else
      let round := Round.perform kb number known
      if round.batch.isEmpty then ⟨known, [round], .fixpoint number⟩
      else
        (saturateWithin kb stop budget (number + 1) (reported + round.contradictions.length)
          round.known).preceded round

/-- The atoms that occur in the clauses, each once. -/
def atoms (cs : List Clause) : List String :=
  (cs.flatMap fun c => c.literals.map Literal.atom).eraseDups

/-- The number of rounds within which a run ends: the limit if there is one, which counts as none
when it is negative, and otherwise as many as the atoms allow. -/
def roundBudget (kb : List Clause) (known : ClauseSet) : Option Int → Nat
  | some limit => limit.toNat
  | none => Nat.pow 3 (atoms (kb ++ known.toList)).length

def saturate (kb : List Clause) (known : ClauseSet) (limit : Option Int := none)
    (stop : StopCondition := .never) (first : Int := 1) (reported : Nat := 0) : Run :=
  saturateWithin kb stop (roundBudget kb known limit) first reported known

end Resolution
