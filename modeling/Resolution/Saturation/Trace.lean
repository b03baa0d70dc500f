import Resolution.Closure
import Resolution.Log

/-!
# The trace of a run

Each round opens with a header and lists the clauses it adds with their parents; the last line
says why the run ended. Log records stand between these lines where they are written.
-/

namespace Resolution

namespace Round

variable (r : Round)

def header : String :=
  "\n--- Round " ++ toString r.number ++ ": " ++ toString r.before ++ " known ---"

/-- A clause that was added, with the parents it was derived from. -/
def additionLine? (c : Clause) : Option String :=
  c.parents?.map fun (left, right) =>
    "  [new] " ++ c.name ++ " (from " ++ left ++ " + " ++ right ++ ")"

/-- The lines of the round in the trace. -/
def traceLines : List String :=
  r.header :: r.added.filterMap additionLine?

/-- The number of added clauses, recorded for a round that is not the last. -/
def summary : List Event :=
  if r.batch.isEmpty then []
  else
    [.debug .inference
      ("Round " ++ toString r.number ++ ": " ++ toString r.added.length ++ " new clauses, " ++
        toString r.known.size ++ " known")]

end Round

def fixpointLine (number : Int) : String :=
  "  [fixpoint] nothing new in round " ++ toString number

/-- The line that reports a run cut short after so many rounds. -/
def roundLimitLine (rounds : Nat) : String :=
  "  [round limit] stopped after " ++ toString rounds ++ " rounds"

/-- The last line of the trace of a run that has come to its end after so many rounds. -/
def endingLine (rounds : Nat) : Ending → String
  | .fixpoint number => fixpointLine number
  | .stopped _ => "  [stopped] stop condition met"
  | .roundLimit => roundLimitLine rounds

namespace Run

variable (run : Run)

/-- The end of the run, recorded behind the last line of its trace. -/
def endingRecord : Event :=
  let size := toString run.known.size ++ " clauses"
  match run.ending with
  | .fixpoint number => .debug .inference ("Fixpoint at round " ++ toString number ++ ": " ++ size)
  | .stopped number => .info .inference ("Stop condition met before round " ++ toString number)
  | .roundLimit =>
    .info .inference
      ("Round limit " ++ toString run.rounds.length ++ " reached with " ++ size)

def endingEvents : List Event :=
  [.traced (endingLine run.rounds.length run.ending), run.endingRecord]

def events : List Event :=
  (run.rounds.flatMap fun r => r.traceLines.map .traced ++ r.summary) ++ run.endingEvents

/-- The trace as text. -/
def trace : String :=
  Text.unlines (Event.traceLines run.events)

end Run

/-- The record that opens the report on a closure. -/
def KnowledgeBase.sizeRecord (kb : KnowledgeBase) : Event :=
  .debug .inference ("Knowledge base: " ++ toString kb.clauses.size ++ " clauses")

namespace Closure

variable (c : Closure)

def continuationEvents (number : Int) : List Event :=
  match c.continuation with
  | some run => run.events
  | none => [.traced (fixpointLine number)]

/-- The opening round is traced but not recorded. When no round is allowed, the size of the
knowledge base is all there is to report. -/
def events : List Event :=
  c.kb.sizeRecord ::
    match c.opening with
    | none => []
    | some r =>
      r.traceLines.map .traced ++ c.continuationEvents r.number ++
        [.info .inference
          ("Closure: " ++ toString c.known.size ++ " clauses (" ++ toString c.kb.clauses.size ++
            " in knowledge base)")]

/-- The trace as text. -/
def trace : String :=
  Text.unlines (Event.traceLines c.events)

end Closure

end Resolution
