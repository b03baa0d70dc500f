import Resolution.CommandLine.Analysis
import Resolution.CommandLine.Arguments
import Resolution.CommandLine.Usage

/-!
# The program as a function

The program reads its arguments, reads one file, and writes text and files. What it writes to the
standard output comes before any file is written; what it says on the side, before and after.
-/

namespace Resolution.CommandLine

/-- What arguments ask for, up to the reading of a file. -/
inductive Plan where
  /-- Text for the standard output, and nothing else. -/
  | say (text : String)
  | refuse (e : UsageError)
  | breakOff (b : Breakdown)
  | examine (r : Request)
deriving DecidableEq, Repr

/-- The level is looked at before the file is read. -/
def Request.plan (r : Request) : Plan :=
  if .logLevel ∈ r.bare then .breakOff .noLevel else .examine r

/-- The analysis of the content of the file. -/
def Request.analysis (r : Request) (content : List UInt8) : Analysis :=
  if .maxRounds ∈ r.bare then analyseOpening r.file r.settings content
  else analyse r.file r.settings content

def plan (arguments : List String) : Plan :=
  match read arguments with
  | .ok request => request.plan
  | .error .help => .say helpText
  | .error .version => .say versionText
  | .error (.error e) => .refuse e

/-- What a run leaves behind, and how it ends. -/
structure Outcome (σ : Type) extends World σ where
  exit : Exit

section Runs

variable {σ : Type} (fs : FileSystem σ)

def Export.write (e : Export) (w : World σ) : Except FileError Unit × World σ :=
  fs.write e.path (Utf8.encode e.content) w

/-- Writes files until one of them fails. -/
def performExports (exit : Exit) : World σ → List Export → Outcome σ
  | w, [] => ⟨w, exit⟩
  | w, e :: es =>
    match e.write fs w with
    | (.ok (), w) => performExports exit (w.say e.notice) es
    | (.error failure, w) => ⟨w, .failed (.file failure)⟩

def Analysis.outcome (a : Analysis) (files : σ) : Outcome σ :=
  performExports fs a.exit ⟨files, a.output, a.messages⟩ a.exports

def run (arguments : List String) (files : σ) : Outcome σ :=
  match plan arguments with
  | .say text => ⟨⟨files, text, ""⟩, .code 0⟩
  | .refuse e => ⟨⟨files, "", e.report⟩, .code 2⟩
  | .breakOff b => ⟨⟨files, "", ""⟩, .failed b⟩
  | .examine r => (Analysis.ofRead r.analysis (fs.read files r.file)).outcome fs files

end Runs

end Resolution.CommandLine
