import Resolution.Text.Quoted

/-!
# File systems

Where a path leads, and what becomes of what is written there, is up to the system that a program
runs on. A path may lead to a file, nowhere, or to one of the outputs of the program itself, so a
write is a change of all that the program can leave behind.
-/

namespace Resolution

/-- Why a file cannot be opened. -/
inductive FileError where
  | notFound (path : String)
  | notDirectory (path : String)
  | isDirectory (path : String)
  | nameTooLong (path : String)
  | permissionDenied (path : String)
  /-- A device that is not there. -/
  | noDevice (path : String)
  | noSpace
  /-- The path holds a NUL character. -/
  | nulInPath
  /-- Any other refusal of a file system, with its number and reason. -/
  | refused (number : Nat) (reason path : String)
deriving DecidableEq, Repr

def FileError.message : FileError → String
  | notFound path => "[Errno 2] No such file or directory: " ++ Text.quote path
  | notDirectory path => "[Errno 20] Not a directory: " ++ Text.quote path
  | isDirectory path => "[Errno 21] Is a directory: " ++ Text.quote path
  | nameTooLong path => "[Errno 36] File name too long: " ++ Text.quote path
  | permissionDenied path => "[Errno 13] Permission denied: " ++ Text.quote path
  | noDevice path => "[Errno 6] No such device or address: " ++ Text.quote path
  | noSpace => "[Errno 28] No space left on device"
  | nulInPath => "embedded null byte"
  | refused number reason path =>
    "[Errno " ++ toString number ++ "] " ++ reason ++ ": " ++ Text.quote path

/-- What a program leaves behind: the files, in the form in which the system keeps them, and what
stands on its two outputs. -/
structure World (σ : Type) where
  files : σ
  output : String
  messages : String

/-- Writes to the side. -/
def World.say {σ : Type} (w : World σ) (text : String) : World σ :=
  { w with messages := w.messages ++ text }

/-- How a system reads and writes what is behind a path. -/
structure FileSystem (σ : Type) where
  read : σ → String → Except FileError (List UInt8)
  /-- Opens a path, writes, and closes it. If that fails, it may have left traces. -/
  write : String → List UInt8 → World σ → Except FileError Unit × World σ

/-- A system without directories: every path is that of a file, and the files are kept in a list,
the newest first. -/
def FileSystem.listed : FileSystem (List (String × List UInt8)) where
  read files path := (files.lookup path).elim (.error (.notFound path)) .ok
  write path bytes w := (.ok (), { w with files := (path, bytes) :: w.files })

end Resolution
