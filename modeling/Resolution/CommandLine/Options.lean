import Resolution.Log
import Resolution.Text.Quoted

/-!
# Options of the command line

The options, how they are spelled, what can be set with them, and what is said about arguments
that cannot be used.
-/

namespace Resolution.CommandLine

inductive Flag where
  | help
  | maxRounds
  | verbose
  | history
  | reportEmpty
  | stopOnEmpty
  | reportSubsumed
  | save
  | dot
  | logLevel
  | version
deriving DecidableEq, Repr

namespace Flag

def all : List Flag :=
  [help, maxRounds, verbose, history, reportEmpty, stopOnEmpty, reportSubsumed, save, dot,
    logLevel, version]

/-- The long spelling. -/
def long : Flag → String
  | help => "--help"
  | maxRounds => "--max-rounds"
  | verbose => "--verbose"
  | history => "--history"
  | reportEmpty => "--report-empty"
  | stopOnEmpty => "--stop-on-empty"
  | reportSubsumed => "--report-subsumed"
  | save => "--save"
  | dot => "--dot"
  | logLevel => "--log-level"
  | version => "--version"

/-- The only short spelling, which belongs to `help`. -/
def short : String := "-h"

/-- What messages call the option. -/
def title : Flag → String
  | help => short ++ "/" ++ long help
  | flag => flag.long

def takesValue : Flag → Bool
  | maxRounds | save | dot | logLevel => true
  | _ => false

/-- The option of this spelling. -/
def ofSpelling? (s : String) : Option Flag :=
  if s = short then some help else all.find? fun flag => flag.long = s

/-- The options whose long spelling begins with `stem`. -/
def completions (stem : String) : List Flag :=
  all.filter fun flag => stem.toList.isPrefixOf flag.long.toList

end Flag

/-- What a run of the program was asked to do. -/
structure Settings where
  maxRounds : Option Int := none
  verbose : Bool := false
  history : Bool := false
  reportEmpty : Bool := false
  stopOnEmpty : Bool := false
  reportSubsumed : Bool := false
  save : String := ""
  dot : String := ""
  logLevel : Level := .warning
deriving DecidableEq, Repr

/-- Why arguments cannot be used. -/
inductive UsageError where
  | ambiguous (argument : String) (candidates : List Flag)
  | valueExpected (flag : Flag)
  | valueIgnored (flag : Flag) (value : String)
  | badInteger (flag : Flag) (value : String)
  | badLevel (flag : Flag) (value : String)
  | missingFile
  | unrecognized (arguments : List String)
deriving DecidableEq, Repr

def UsageError.message : UsageError → String
  | ambiguous argument candidates =>
    "ambiguous option: " ++ argument ++ " could match " ++
      ", ".intercalate (candidates.map Flag.long)
  | valueExpected flag => about flag "expected one argument"
  | valueIgnored flag value => about flag ("ignored explicit argument " ++ Text.quote value)
  | badInteger flag value => about flag ("invalid int value: " ++ Text.quote value)
  | badLevel flag value =>
    about flag ("invalid choice: " ++ Text.quote value ++ " (choose from " ++
      ", ".intercalate (Level.all.map fun level => Text.quote level.name) ++ ")")
  | missingFile => "the following arguments are required: kb"
  | unrecognized arguments => "unrecognized arguments: " ++ " ".intercalate arguments
where
  about (flag : Flag) (complaint : String) : String :=
    "argument " ++ flag.title ++ ": " ++ complaint

end Resolution.CommandLine
