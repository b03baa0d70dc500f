import Resolution.Checkpoint
import Resolution.DerivationGraph
import Resolution.History
import Resolution.KnowledgeBase.Lines
import Resolution.Saturation.StopRule
import Resolution.Saturation.Trace
import Resolution.Subsumption

/-!
# Sessions

A session holds a knowledge base and a set of known clauses and serves requests on them one after
the other. A request that fails leaves the session as it was.
-/

namespace Resolution

/-- How a run is to go. -/
structure RunOptions where
  limit : Option Int := none
  first : Int := 1
  stop : Option StopRule := none
  /-- Contradictions are reported as they are met. -/
  reporting : Bool := true
deriving Repr

def RunOptions.condition (o : RunOptions) : StopCondition :=
  o.stop.elim .never (StopRule.condition o.reporting)

/-- What a run leaves to be read. -/
structure RunReport where
  clauses : List Clause
  history : History
  trace : String
  empties : List Clause

def Run.report (run : Run) : RunReport :=
  ⟨run.known.toList, run.history, run.trace, run.contradictions⟩

def Closure.report (c : Closure) : RunReport :=
  ⟨c.toList, c.history, c.trace, c.empties⟩

structure Session where
  kb : ClauseSet := ∅
  known : ClauseSet := ∅

namespace Session

inductive Request where
  | setKnowledgeBase (clauses : List Clause)
  | readKnowledgeBase (lines : List String)
  | setKnown (clauses : List Clause)
  /-- Makes the knowledge base all that is known. -/
  | seed
  | insert (c : Clause)
  | contains (c : Clause)
  | get (c : Clause)
  | list
  | display
  | document
  | restore (document : Json)
  | save
  | load (text : String)
  | reload
  | newResolvents
  | round (number : Int)
  | saturate (options : RunOptions)
  | closure (options : RunOptions)
  | subsumed
  | graph

inductive Answer where
  | clauses (cs : List Clause)
  | truth (b : Bool)
  | found (c : Option Clause)
  | text (s : String)
  | document (v : Json)
  | run (report : RunReport)

inductive Failure where
  | line (e : LineError)
  | checkpoint (e : Checkpoint.LoadError)

/-- The session with another known set, all of which is the answer. -/
def knowing (s : Session) (known : ClauseSet) : Session × Answer :=
  ({ s with known }, .clauses known.toList)

/-- The session with another knowledge base, all of which is the answer. -/
def basedOn (s : Session) (kb : ClauseSet) : Session × Answer :=
  ({ s with kb }, .clauses kb.toList)

def serve (s : Session) : Request → Except Failure (Session × Answer)
  | .setKnowledgeBase cs => .ok (s.basedOn (KnowledgeBase.ofList cs).clauses)
  | .readKnowledgeBase lines =>
    match Reading.ofLines (lines.map .text) with
    | .ok reading => .ok (s.basedOn reading.kb.clauses)
    | .error e => .error (.line e)
  | .setKnown cs => .ok (s.knowing (.ofList cs))
  | .seed => .ok (s.knowing s.kb)
  | .insert c =>
    .ok ({ s with known := s.known.insert c }, .truth (!s.known.contains c))
  | .contains c => .ok (s, .truth (s.known.contains c))
  | .get c => .ok (s, .found (s.known.get? c))
  | .list => .ok (s, .clauses s.known.toList)
  | .display => .ok (s, .text s.known.display)
  | .document => .ok (s, .document (Checkpoint.ofSet s.known))
  | .restore document =>
    match Checkpoint.toSet document with
    | .ok known => .ok (s.knowing known)
    | .error f => .error (.checkpoint (.fault f))
  | .save => .ok (s, .text (Checkpoint.save s.known))
  | .load text =>
    match Checkpoint.load text with
    | .ok known => .ok (s.knowing known)
    | .error e => .error (.checkpoint e)
  | .reload =>
    match Checkpoint.load (Checkpoint.save s.known) with
    | .ok known => .ok (s.knowing known)
    | .error e => .error (.checkpoint e)
  | .newResolvents => .ok (s, .clauses (Resolution.newResolvents s.kb.toList s.known))
  | .round number =>
    let result := absorb number s.known (Resolution.newResolvents s.kb.toList s.known)
    .ok ({ s with known := result.known }, .clauses result.added)
  | .saturate o =>
    let run := Resolution.saturate s.kb.toList s.known o.limit o.condition o.first
    .ok ({ s with known := run.known }, .run run.report)
  | .closure o =>
    .ok (s, .run (Resolution.closure s.kb.toList o.limit o.condition).report)
  | .subsumed => .ok (s, .clauses (Resolution.subsumed s.known.toList))
  | .graph => .ok (s, .text (DerivationGraph.render s.known.toList))

/-- Serves requests in turn. Beside each outcome stands the size of the known set after it. -/
def serveAll (s : Session) : List Request → List (Except Failure Answer × Nat)
  | [] => []
  | r :: rs =>
    match s.serve r with
    | .ok (next, answer) => (.ok answer, next.known.size) :: next.serveAll rs
    | .error e => (.error e, s.known.size) :: s.serveAll rs

end Session

end Resolution
