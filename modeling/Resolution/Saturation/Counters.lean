import Resolution.Saturation.Trace

/-!
# Saturation by counting

A run written as a loop that writes its trace as it goes. The loop does not look ahead: it counts
the rounds it has run, holds the count against the limit, and reports the count when it stops there.
-/

namespace Resolution

def beginsWith (start line : String) : Bool :=
  start.toList.isPrefixOf line.toList

/-- The lines of a trace that open a round. -/
def headers (lines : List String) : List String :=
  lines.filter (beginsWith "\n--- Round ")

/-- The lines of a trace that report a run cut short by its limit. -/
def limitReports (lines : List String) : List String :=
  lines.filter (beginsWith "  [round limit] ")

/-- What the loop has in hand before a round. -/
structure LoopState where
  known : ClauseSet
  /-- The number of the next round. -/
  number : Int
  /-- The rounds that the loop has run. -/
  done : Nat
  /-- The contradictions reported so far. -/
  reported : Nat
  /-- The trace so far. -/
  lines : List String

namespace LoopState

/-- Writes why the loop ends. -/
def close (s : LoopState) (ending : Ending) : LoopState :=
  { s with lines := s.lines ++ [endingLine s.done ending] }

/-- Counts a round and writes what the trace has of it. -/
def count (s : LoopState) (round : Round) : LoopState :=
  { s with
    done := s.done + 1
    reported := s.reported + round.contradictions.length
    lines := s.lines ++ round.traceLines }

/-- Moves on to the next round. -/
def moveOn (s : LoopState) (round : Round) : LoopState :=
  { s with known := round.known, number := s.number + 1 }

/-- What one turn of the loop comes to. -/
inductive Turn where
  | goesOn (s : LoopState)
  | ends (ending : Ending) (s : LoopState)

section Loop

variable (kb : List Clause) (stop : StopCondition) (limit : Option Int)

def turn (s : LoopState) : Turn :=
  if limit.any (· ≤ Int.ofNat s.done) then .ends .roundLimit (s.close .roundLimit)
  else if stop s.known s.reported then .ends (.stopped s.number) (s.close (.stopped s.number))
  else
    let round := Round.perform kb s.number s.known
    if round.batch.isEmpty then
      .ends (.fixpoint s.number) ((s.count round).close (.fixpoint s.number))
    else .goesOn ((s.count round).moveOn round)

/-- How the loop ends and in what state, if that happens within so many turns. -/
def loop : (turns : Nat) → LoopState → Option (Ending × LoopState)
  | 0, _ => none
  | turns + 1, s =>
    match turn kb stop limit s with
    | .ends ending t => some (ending, t)
    | .goesOn t => loop turns t

end Loop

end LoopState

end Resolution
