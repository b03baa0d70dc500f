import Resolution.Clause.Reader
import Resolution.KnowledgeBase
import Resolution.Text.Utf8

/-!
# Reading a knowledge base

A knowledge base is written one clause per line. Blank lines and lines that begin with a
semicolon are skipped. The first line that is damaged or holds no clause is the error, with its
number among all lines and its text.

A file is UTF-8 and its lines end with the byte 0x0A. Every line is decoded, a skipped one too.
A byte order mark at the start of the file is no part of the first line.
-/

namespace Resolution

/-- A line: its text, or the offset of the first byte that cannot be decoded together with what
can be shown of the line. -/
inductive Line where
  | text (s : String)
  | damaged (offset : Nat) (shown : String)
deriving DecidableEq, Repr

inductive LineFault where
  | clause (e : ReadError)
  | encoding (offset : Nat)
deriving DecidableEq, Repr

def LineFault.message : LineFault → String
  | clause e => e.message
  | encoding offset => "not valid UTF-8 (byte " ++ toString offset ++ ")"

/-- A message about a line, with the number of the line if it has one and its trimmed text. -/
def lineMessage (message : String) (number : Option Int) (line : String) : String :=
  let place := number.elim "" fun n => "line " ++ toString n ++ ": "
  place ++ message ++ ": " ++ Text.quote (Text.trim line)

structure LineError where
  fault : LineFault
  number : Nat
  line : String
deriving DecidableEq, Repr

def LineError.message (e : LineError) : String :=
  lineMessage e.fault.message (some e.number) e.line

/-- A trimmed line that holds no clause. -/
def isSkipped (trimmed : String) : Bool :=
  trimmed.toList.head?.all (· = ';')

/-- The clauses on the lines, the first of which has the given number. -/
def readLines (number : Nat) : List Line → Except LineError (List Clause)
  | [] => .ok []
  | .damaged offset shown :: _ => .error ⟨.encoding offset, number, shown⟩
  | .text s :: lines =>
    if isSkipped (Text.trim s) then readLines (number + 1) lines
    else
      match Clause.read (Text.trim s) with
      | .error e => .error ⟨.clause e, number, s⟩
      | .ok c => (readLines (number + 1) lines).map (c :: ·)

/-- A knowledge base that was read, and the number of clauses it was read from. -/
structure Reading where
  parsed : Nat
  kb : KnowledgeBase

def Reading.ofLines (lines : List Line) : Except LineError Reading :=
  (readLines 1 lines).map fun cs => ⟨cs.length, .ofList cs⟩

/-- A line from its bytes. What is shown of a damaged line is the whole of it. -/
def Line.ofBytes (first : Bool) (bytes : List UInt8) : Line :=
  match Utf8.decode (if first then Utf8.dropMark bytes else bytes) with
  | .ok s => .text s
  | .error offset => .damaged offset (Utf8.decodeLossy bytes)

def linesOfBytes (bytes : List UInt8) : List Line :=
  match Text.splitAfter 0x0A bytes with
  | [] => []
  | line :: lines => Line.ofBytes true line :: lines.map (Line.ofBytes false)

def Reading.ofBytes (bytes : List UInt8) : Except LineError Reading :=
  ofLines (linesOfBytes bytes)

end Resolution
