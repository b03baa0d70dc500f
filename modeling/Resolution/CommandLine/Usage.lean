import Resolution.CommandLine.Options
import Resolution.Text.Lines

/-!
# Usage and help
-/

namespace Resolution.CommandLine

def programName : String := "propres"

def versionNumber : String := "0.1.0"

def versionText : String :=
  programName ++ " " ++ versionNumber ++ "\n"

def usageText : String :=
  Text.unlines
    ["usage: propres [-h] [--max-rounds MAX_ROUNDS] [--verbose] [--history]",
     "               [--report-empty] [--stop-on-empty] [--report-subsumed]",
     "               [--save SAVE] [--dot DOT]",
     "               [--log-level \x7bDEBUG,INFO,WARNING,ERROR\x7d] [--version]",
     "               kb"]

def helpText : String :=
  usageText ++ Text.unlines
    ["",
     "Propositional resolution closure of a clause knowledge base",
     "",
     "positional arguments:",
     "  kb                    Knowledge base file, one (clause) per line",
     "",
     "options:",
     "  -h, --help            show this help message and exit",
     "  --max-rounds MAX_ROUNDS",
     "                        Stop after this many inference rounds (default: run to",
     "                        fixpoint)",
     "  --verbose             Trace each round on stderr",
     "  --history             Print a per-round summary on stderr",
     "  --report-empty        Warn on stderr when a contradiction (empty clause) is",
     "                        derived",
     "  --stop-on-empty       Halt after the round in which a contradiction is",
     "                        derived",
     "  --report-subsumed     List closure clauses subsumed by a shorter closure",
     "                        clause on stderr",
     "  --save SAVE           Save the closure with provenance as JSON",
     "  --dot DOT             Export the derivation graph as a DOT file",
     "  --log-level \x7bDEBUG,INFO,WARNING,ERROR\x7d",
     "                        Logging level for stderr (default: WARNING)",
     "  --version             show program's version number and exit"]

def UsageError.report (e : UsageError) : String :=
  usageText ++ programName ++ ": error: " ++ e.message ++ "\n"

end Resolution.CommandLine
