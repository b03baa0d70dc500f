import Resolution.Saturation

/-!
# Stop rules

The stop conditions that can be asked for by name.
-/

namespace Resolution

inductive StopRule where
  /-- The clause is known. -/
  | contains (c : Clause)
  /-- At least so many clauses are known. -/
  | size (least : Int)
  /-- At least so many contradictions have been reported. -/
  | contradictions (least : Int)
deriving DecidableEq, Repr

/-- The condition that a rule stands for; in a run that reports nothing, nothing is counted. -/
def StopRule.condition (reporting : Bool) : StopRule → StopCondition
  | contains c => fun known _ => known.contains c
  | size least => fun known _ => least ≤ known.size
  | contradictions least => fun _ reported => least ≤ if reporting then reported else 0

end Resolution
