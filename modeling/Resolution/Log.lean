/-!
# Log records and trace lines

What a run reports while it goes on: records of some severity, which a threshold lets through or
holds back, and lines of a trace.
-/

namespace Resolution

inductive Level where
  | debug
  | info
  | warning
  | error
deriving DecidableEq, Repr

namespace Level

def all : List Level := [.debug, .info, .warning, .error]

def name : Level → String
  | debug => "DEBUG"
  | info => "INFO"
  | warning => "WARNING"
  | error => "ERROR"

def severity : Level → Nat
  | debug => 10
  | info => 20
  | warning => 30
  | error => 40

def ofName? (s : String) : Option Level :=
  all.find? fun level => level.name = s

end Level

/-- The part of the program that writes a record. -/
inductive Channel where
  | reading
  | inference
  | storage
deriving DecidableEq, Repr

def Channel.name : Channel → String
  | reading => "propres.syntax"
  | inference => "propres.core.engine"
  | storage => "propres.core.clause_set"

structure LogRecord where
  level : Level
  channel : Channel
  message : String
deriving DecidableEq, Repr

namespace LogRecord

def text (r : LogRecord) : String :=
  r.level.name ++ " " ++ r.channel.name ++ ": " ++ r.message

/-- The record is at least as severe as the threshold. -/
def passes (r : LogRecord) (threshold : Level) : Bool :=
  threshold.severity ≤ r.level.severity

end LogRecord

inductive Event where
  | traced (line : String)
  | logged (record : LogRecord)
deriving DecidableEq, Repr

namespace Event

def debug (channel : Channel) (message : String) : Event :=
  .logged ⟨.debug, channel, message⟩

def info (channel : Channel) (message : String) : Event :=
  .logged ⟨.info, channel, message⟩

/-- The lines that events write when records pass `threshold` and the trace is on or off. -/
def lines (threshold : Level) (tracing : Bool) (events : List Event) : List String :=
  events.filterMap fun
    | .traced line => if tracing then some line else none
    | .logged r => if r.passes threshold then some r.text else none

/-- The trace alone. -/
def traceLines (events : List Event) : List String :=
  events.filterMap fun
    | .traced line => some line
    | .logged _ => none

end Event

end Resolution
