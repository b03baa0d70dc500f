import Resolution.CommandLine.Options
import Resolution.Text.Integer

/-!
# Reading the command line

Arguments are first told apart, from left to right: options, by their spelling or a stem that only
one of them has, and plain arguments. Everything behind `--` is plain. They are then used from
left to right. Help and version requests take effect where they stand; what is missing or left
over is reported at the end.

Two hyphens are never a value. Joined to an option that takes one, they leave it without a value.
-/

namespace Resolution.CommandLine

/-- What an argument is. -/
inductive Role where
  | plain
  /-- The first `--`. -/
  | separator
  /-- An option, with the value that is joined to it by an equals sign. -/
  | option (flag : Flag) (value : Option String)
  /-- The short spelling of help with further characters behind it, or behind an equals sign. -/
  | cluster (rest : List Char)
  /-- An option that does not exist. -/
  | unknown
deriving DecidableEq, Repr

structure Argument where
  text : String
  role : Role
deriving DecidableEq, Repr

/-- Cuts an argument at its first equals sign. -/
def splitValue (s : String) : String × Option String :=
  let cs := s.toList
  let name := String.ofList (cs.takeWhile (· ≠ '='))
  match cs.dropWhile (· ≠ '=') with
  | [] => (name, none)
  | _ :: value => (name, some (.ofList value))

def allDigits (cs : List Char) : Bool :=
  !cs.isEmpty && cs.all fun c => (Text.digitValue? c).isSome

/-- A number behind a minus sign, in which a point may stand before the last digits. A line feed
may follow. -/
def isNegativeNumber (s : String) : Bool :=
  match s.toList with
  | '-' :: cs =>
    let cs := if cs.getLast? = some '\n' then cs.dropLast else cs
    allDigits cs ||
      match cs.dropWhile (· ≠ '.') with
      | _ :: fraction =>
        let whole := cs.takeWhile (· ≠ '.')
        (whole.isEmpty || allDigits whole) && allDigits fraction
      | [] => false
  | _ => false

/-- The role of an argument that begins like an option and has no spelling of one, not even as
far as an equals sign. -/
def roleOfStem (s : String) : Except UsageError Role :=
  let (stem, value) := splitValue s
  let candidates := if s.toList.take 2 = ['-', '-'] then Flag.completions stem else []
  match candidates with
  | [flag] => .ok (.option flag value)
  | _ :: _ :: _ => .error (.ambiguous s candidates)
  | [] =>
    if s.toList.take 2 = Flag.short.toList then .ok (.cluster (s.toList.drop 2))
    else if isNegativeNumber s || ' ' ∈ s.toList then .ok .plain
    else .ok .unknown

/-- The role of an argument that no separator precedes. -/
def roleOf (s : String) : Except UsageError Role :=
  if s = "--" then .ok .separator
  else if s.toList.head? ≠ some '-' || s = "-" then .ok .plain
  else
    match Flag.ofSpelling? s, splitValue s with
    | some flag, _ => .ok (.option flag none)
    | none, (name, some value) =>
      match Flag.ofSpelling? name with
      | some flag =>
        if name = Flag.short ∧ value ≠ "" then .ok (.cluster value.toList)
        else .ok (.option flag (some value))
      | none => roleOfStem s
    | none, (_, none) => roleOfStem s

def classify : List String → Except UsageError (List Argument)
  | [] => .ok []
  | s :: rest => do
    let role ← roleOf s
    if role = .separator then
      return ⟨s, role⟩ :: rest.map fun t => ⟨t, .plain⟩
    else
      return ⟨s, role⟩ :: (← classify rest)

/-- Why reading ends before the last argument. -/
inductive Halt where
  | help
  | version
  | error (e : UsageError)
deriving DecidableEq, Repr

/-- What has been gathered from the arguments used so far. -/
structure Gathered where
  settings : Settings := {}
  /-- The options that need a value and have been left without one. -/
  bare : List Flag := []
  file : Option String := none
  /-- The arguments that there was no use for. -/
  extras : List String := []
deriving DecidableEq, Repr

namespace Gathered

def extra (g : Gathered) (s : String) : Gathered :=
  { g with extras := g.extras ++ [s] }

/-- Takes note of an option without a value. -/
def switch (g : Gathered) (flag : Flag) : Except Halt Gathered :=
  let s := g.settings
  match flag with
  | .help => .error .help
  | .version => .error .version
  | .verbose => .ok { g with settings := { s with verbose := true } }
  | .history => .ok { g with settings := { s with history := true } }
  | .reportEmpty => .ok { g with settings := { s with reportEmpty := true } }
  | .stopOnEmpty => .ok { g with settings := { s with stopOnEmpty := true } }
  | .reportSubsumed => .ok { g with settings := { s with reportSubsumed := true } }
  | flag => .error (.error (.valueExpected flag))

/-- Takes note of an option and its value. -/
def assign (g : Gathered) (flag : Flag) (value : String) : Except Halt Gathered :=
  let s := g.settings
  let bare := g.bare.filter (· ≠ flag)
  match flag with
  | .maxRounds =>
    match Text.readInteger? value with
    | some n => .ok { g with settings := { s with maxRounds := some n }, bare }
    | none => .error (.error (.badInteger flag value))
  | .save => .ok { g with settings := { s with save := value } }
  | .dot => .ok { g with settings := { s with dot := value } }
  | .logLevel =>
    match Level.ofName? value with
    | some level => .ok { g with settings := { s with logLevel := level }, bare }
    | none => .error (.error (.badLevel flag value))
  | flag => .error (.error (.valueIgnored flag value))

/-- Takes note of an option that has been left without its value. No file is asked for then. -/
def strip (g : Gathered) (flag : Flag) : Gathered :=
  let s := g.settings
  match flag with
  | .save => { g with settings := { s with save := "" } }
  | .dot => { g with settings := { s with dot := "" } }
  | flag => { g with bare := flag :: g.bare }

/-- Takes note of an option and the value that is joined to it. -/
def join (g : Gathered) (flag : Flag) (value : String) : Except Halt Gathered :=
  if flag.takesValue ∧ value = "--" then .ok (g.strip flag) else g.assign flag value

end Gathered

/-- What the characters behind a short help option ask for. Further short help options may come
first; anything else is an error. -/
def haltOfCluster (cs : List Char) : Halt :=
  match cs.dropWhile (· = 'h') with
  | [] => .help
  | rest => .error (.valueIgnored .help (.ofList rest))

def gather (g : Gathered) : List Argument → Except Halt Gathered
  | [] => .ok g
  | ⟨s, .plain⟩ :: ⟨t, .separator⟩ :: rest =>
    if g.file.isNone then gather { g with file := some s } rest
    else gather ((g.extra s).extra t) rest
  | ⟨s, .plain⟩ :: rest =>
    if g.file.isNone then gather { g with file := some s } rest else gather (g.extra s) rest
  | ⟨s, .separator⟩ :: rest =>
    if g.file.isNone then gather g rest else gather (g.extra s) rest
  | ⟨s, .unknown⟩ :: rest => gather (g.extra s) rest
  | ⟨_, .cluster cs⟩ :: _ => .error (haltOfCluster cs)
  | ⟨_, .option flag (some value)⟩ :: rest => do gather (← g.join flag value) rest
  | ⟨_, .option flag none⟩ :: ⟨value, .plain⟩ :: rest =>
    if flag.takesValue then do gather (← g.assign flag value) rest
    else do gather (← g.switch flag) (⟨value, .plain⟩ :: rest)
  | ⟨_, .option flag none⟩ :: rest => do gather (← g.switch flag) rest

/-- A run that is asked for. -/
structure Request where
  file : String
  settings : Settings
  /-- The options that need a value and have been left without one. -/
  bare : List Flag
deriving DecidableEq, Repr

/-- What the command line asks for: a run on a file, or something else. -/
def read (arguments : List String) : Except Halt Request := do
  let g ← (classify arguments).mapError .error >>= gather {}
  match g.file with
  | none => throw (.error .missingFile)
  | some file =>
    if g.extras.isEmpty then return { file, settings := g.settings, bare := g.bare }
    else throw (.error (.unrecognized g.extras))

end Resolution.CommandLine
