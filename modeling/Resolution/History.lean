import Resolution.Closure

/-!
# History

The history of a run has one entry for each round: its number, the names of the clauses it added,
and the size of the known set after it.
-/

namespace Resolution

structure HistoryEntry where
  round : Int
  produced : List String
  knownSize : Int
deriving DecidableEq, Repr

/-- The parts of an entry. -/
inductive HistoryKey where
  | produced
  | round
  | knownSize
deriving DecidableEq, Repr

def HistoryKey.name : HistoryKey → String
  | produced => "produced"
  | round => "round"
  | knownSize => "known_size"

namespace HistoryEntry

/-- An entry from its parts, or the first one that is missing. -/
def ofParts (round : Option Int) (produced : Option (List String)) (knownSize : Option Int) :
    Except HistoryKey HistoryEntry := do
  let produced ← produced.elim (.error .produced) .ok
  let round ← round.elim (.error .round) .ok
  let knownSize ← knownSize.elim (.error .knownSize) .ok
  return ⟨round, produced, knownSize⟩

def line (e : HistoryEntry) : String :=
  let produced := if e.produced.isEmpty then "(nothing new)" else ", ".intercalate e.produced
  "  Round " ++ toString e.round ++ " [" ++ toString e.knownSize ++ " known]: " ++ produced

end HistoryEntry

abbrev History := List HistoryEntry

namespace History

def rule : String :=
  .ofList (List.replicate 60 '=')

/-- The summary of a history, under a title between two rules. -/
def report (h : History) : String :=
  Text.unlines (["", rule, "Saturation history:", rule] ++ h.map HistoryEntry.line)

end History

def Round.entry (r : Round) : HistoryEntry :=
  ⟨r.number, r.added.map Clause.name, r.known.size⟩

def Run.history (run : Run) : History :=
  run.rounds.map Round.entry

def Closure.history (c : Closure) : History :=
  c.rounds.map Round.entry

end Resolution
