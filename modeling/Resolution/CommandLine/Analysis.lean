import Resolution.Checkpoint
import Resolution.CommandLine.Options
import Resolution.DerivationGraph
import Resolution.FileSystem
import Resolution.History
import Resolution.KnowledgeBase.Lines
import Resolution.Saturation.StopRule
import Resolution.Saturation.Trace
import Resolution.Subsumption

/-!
# The analysis of a knowledge base file

What the program makes of the bytes of a file: the closure goes to the standard output, and the
settings decide what is said about it on the side and which files are to be written.
-/

namespace Resolution.CommandLine

/-- A file to be written, and what is said when it has been. -/
structure Export where
  path : String
  content : String
  notice : String
deriving DecidableEq, Repr

/-- Why a run breaks off. -/
inductive Breakdown where
  | file (e : FileError)
  /-- The level of the records has been left without a value. -/
  | noLevel
  /-- The limit on the rounds has been left without a value. -/
  | noLimit
deriving DecidableEq, Repr

def Breakdown.message : Breakdown → String
  | file e => e.message
  | noLevel => "attribute name must be string, not 'list'"
  | noLimit => "'<=' not supported between instances of 'list' and 'int'"

/-- How a run ends. -/
inductive Exit where
  | code (n : Nat)
  | failed (b : Breakdown)
deriving DecidableEq, Repr

structure Analysis where
  exit : Exit
  output : String
  messages : String
  exports : List Export
deriving DecidableEq, Repr

namespace Settings

variable (s : Settings)

/-- Contradictions are collected, for a report or for the stop condition. -/
def reporting : Bool :=
  s.reportEmpty || s.stopOnEmpty

/-- The run is to stop when some contradiction has been collected, or not before its end. -/
def condition : StopCondition :=
  if s.stopOnEmpty then (StopRule.contradictions 1).condition s.reporting else .never

def closure (kb : KnowledgeBase) : Closure :=
  Resolution.closure kb.toList s.maxRounds s.condition

end Settings

namespace Analysis

/-- The file cannot be used. -/
def failure (complaint : String) : Analysis :=
  ⟨.code 1, "", "Error: " ++ complaint ++ "\n", []⟩

/-- The run breaks off with nothing on the standard output. -/
def brokenOff (b : Breakdown) (messages : String) : Analysis :=
  ⟨.failed b, "", messages, []⟩

/-- The analysis of a file that may not be readable. A NUL in its path is not dealt with. -/
def ofRead (use : List UInt8 → Analysis) : Except FileError (List UInt8) → Analysis
  | .ok content => use content
  | .error .nulInPath => .brokenOff (.file .nulInPath) ""
  | .error e => .failure e.message

end Analysis

def readingEvents (file : String) (r : Reading) : List Event :=
  [.debug .reading ("Parsed " ++ toString r.parsed ++ " clauses, " ++
      toString r.kb.clauses.size ++ " after normalization"),
    .debug .reading ("Loaded knowledge base from " ++ file)]

/-- The warnings about empty clauses, dropped and derived. -/
def emptyWarnings (file : String) (dropped derived : List Clause) : List String :=
  let first := match dropped with
    | [] => []
    | _ => ["Warning: " ++ toString dropped.length ++ " clause(s) in " ++ file ++
        " normalized to the empty clause and were dropped"]
  let second := (derived.head?.bind Clause.parents?).map fun (left, right) =>
    "Warning: contradiction derived (empty clause from " ++ left ++ " + " ++ right ++
      "); empty clauses are not part of the output"
  first ++ second.toList

def subsumptionLines (cs : List Clause) : List String :=
  let redundant := subsumed cs
  ("Subsumed: " ++ toString redundant.length ++ " of " ++ toString cs.length ++ " clauses") ::
    redundant.map fun c => "  " ++ c.name

def graphExport (path : String) (c : Closure) : Export :=
  ⟨path, DerivationGraph.render c.toList, "Graph exported to " ++ path ++ "\n"⟩

def checkpointExport (threshold : Level) (path : String) (c : Closure) : Export :=
  let event := Event.debug .storage
    ("Saved " ++ toString c.known.size ++ " clauses to " ++ path)
  ⟨path, Checkpoint.save c.known,
    Text.unlines (Event.lines threshold false [event] ++ ["Closure saved to " ++ path])⟩

/-- The files to be written, the graph before the checkpoint. An empty path asks for none. -/
def exports (s : Settings) (c : Closure) : List Export :=
  (if s.dot.isEmpty then [] else [graphExport s.dot c]) ++
    if s.save.isEmpty then [] else [checkpointExport s.logLevel s.save c]

/-- All that is said on the side before files are written. -/
def messages (file : String) (s : Settings) (r : Reading) (c : Closure) : String :=
  Text.unlines (Event.lines s.logLevel s.verbose (readingEvents file r ++ c.events)) ++
    (if s.history then History.report c.history else "") ++
    Text.unlines ((if s.reportEmpty then emptyWarnings file r.kb.dropped c.empties else []) ++
      if s.reportSubsumed then subsumptionLines c.toList else [])

/-- The analysis of a file with this name and content. -/
def analyse (file : String) (s : Settings) (content : List UInt8) : Analysis :=
  match Reading.ofBytes content with
  | .error e => .failure (file ++ ": " ++ e.message)
  | .ok r =>
    let c := s.closure r.kb
    ⟨.code 0, Clause.listing c.toList, messages file s r c, exports s c⟩

/-- The analysis that breaks off where the limit on the rounds is looked at, before the first of
them. -/
def analyseOpening (file : String) (s : Settings) (content : List UInt8) : Analysis :=
  match Reading.ofBytes content with
  | .error e => .failure (file ++ ": " ++ e.message)
  | .ok r =>
    .brokenOff .noLimit
      (Text.unlines (Event.lines s.logLevel s.verbose (readingEvents file r ++ [r.kb.sizeRecord])))

end Resolution.CommandLine
