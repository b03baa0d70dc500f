import Resolution.CommandLine

/-!
# The program

Reads the arguments and the file, and writes what the analysis says to be written.
-/

namespace Resolution.CommandLine

/-- The number of an error, which some calls give with its sign turned. -/
def errorNumber (n : UInt32) : Nat :=
  if n < 0x80000000 then n.toNat else (0 - n).toNat

/-- The refusal that an error of the file system stands for. -/
def fileErrorOf (path : String) : IO.Error → FileError
  | .noFileOrDirectory .. => .notFound path
  | .inappropriateType _ number reason =>
    match errorNumber number with
    | 20 => .notDirectory path
    | 21 => .isDirectory path
    | n => .refused n reason path
  | .permissionDenied _ number reason =>
    match errorNumber number with
    | 13 => .permissionDenied path
    | n => .refused n reason path
  | .resourceExhausted _ number reason => .refused (errorNumber number) reason path
  | .invalidArgument _ number reason => .refused (errorNumber number) reason path
  | .otherError number reason => .refused (errorNumber number) reason path
  | e => .refused 0 (toString e) path

def readFile (path : String) : IO (Except FileError (List UInt8)) := do
  if '\x00' ∈ path.toList then return .error .nulInPath
  try
    let bytes ← IO.FS.readBinFile path
    return .ok bytes.data.toList
  catch e => return .error (fileErrorOf path e)

/-- Writes a file and says so, or says why not. -/
def writeExport (e : Export) : IO Bool := do
  try
    IO.FS.writeFile e.path e.content
    IO.eprint e.notice
    return true
  catch err =>
    IO.eprintln (fileErrorOf e.path err).message
    return false

def writeAll : List Export → IO Bool
  | [] => return true
  | e :: es => do
    if ← writeExport e then writeAll es else return false

/-- Says why the run breaks off. -/
def breakOff (b : Breakdown) : IO UInt32 := do
  IO.eprintln b.message
  return 1

def perform (a : Analysis) : IO UInt32 := do
  IO.print a.output
  IO.eprint a.messages
  if ← writeAll a.exports then
    match a.exit with
    | .code n => return n.toUInt32
    | .failed b => breakOff b
  else return 1

end Resolution.CommandLine

open Resolution.CommandLine in
def main (arguments : List String) : IO UInt32 := do
  match plan arguments with
  | .say text =>
    IO.print text
    return 0
  | .refuse e =>
    IO.eprint e.report
    return 2
  | .breakOff b => breakOff b
  | .examine r => perform (.ofRead r.analysis (← readFile r.file))
