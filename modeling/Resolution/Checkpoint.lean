import Resolution.ClauseSet
import Resolution.Json.Printer
import Resolution.Json.Reader

/-!
# Checkpoints

A set of clauses is saved as a JSON document: an object whose field `clauses` lists, for each
clause in order, its literals as pairs of a sign and an atom, its source and its step. Loading
puts the clauses in the document back into a set, as they are and in their order.

Where the document calls for a list, an object stands for its keys and a string for its
characters. A clause may leave out its source or its step, which are then empty and zero.

A document is first gone through for its shape. Only then is it asked whether an atom or a source
is text and a step a number, and of a clause that the set has already no more than its atoms.
-/

namespace Resolution.Checkpoint

/-- Why a document is not a checkpoint. -/
inductive Fault where
  | missingKey (key : String)
  /-- A value without fields where an object has to be. -/
  | noFields (kind : Json.Kind)
  /-- A value that lists nothing where a list has to be. -/
  | noItems (kind : Json.Kind)
  /-- A value that lists nothing where a literal has to be. -/
  | noPair (kind : Json.Kind)
  | tooFewParts (count : Nat)
  | tooManyParts
  | badSign (sign pair : Json)
  /-- An atom with parts of its own. -/
  | compoundAtom (kind : Json.Kind)
  | badAtom (kind : Json.Kind)
  | badSource (kind : Json.Kind)
  | badStep (kind : Json.Kind)
deriving Repr

def Fault.message : Fault → String
  | missingKey key => Text.quote key
  | noFields .arr => "list indices must be integers or slices, not str"
  | noFields .str => "string indices must be integers, not 'str'"
  | noFields kind => "'" ++ kind.name ++ "' object is not subscriptable"
  | noItems kind => "'" ++ kind.name ++ "' object is not iterable"
  | noPair kind => "cannot unpack non-iterable " ++ kind.name ++ " object"
  | tooFewParts count =>
    "not enough values to unpack (expected 2, got " ++ toString count ++ ")"
  | tooManyParts => "too many values to unpack (expected 2)"
  | badSign sign pair => "bad literal sign " ++ sign.display ++ " in " ++ pair.display
  | compoundAtom kind => "unhashable type: '" ++ kind.name ++ "'"
  | badAtom kind => "atom must be str, not " ++ kind.name
  | badSource kind => "source must be str, not " ++ kind.name
  | badStep kind => "step must be int, not " ++ kind.name

def literalJson (l : Literal) : Json :=
  .arr [.text (if l.positive then "+" else "-"), .text l.atom]

def clauseJson (c : Clause) : Json :=
  .obj [("literals", .arr (c.literals.map literalJson)), ("source", .arr (c.source.map .text)),
    ("step", .int c.step)]

/-- The document of a set. -/
def ofSet (s : ClauseSet) : Json :=
  .obj [("clauses", .arr (s.toList.map clauseJson))]

/-- The field of an object. -/
def field (v : Json) (key : String) : Except Fault Json :=
  match v with
  | .obj fields =>
    match Json.field? fields key with
    | some value => .ok value
    | none => .error (.missingKey key)
  | v => .error (.noFields v.kind)

/-- The items that a value lists. -/
def items? : Json → Option (List Json)
  | .arr items => some items
  | .str t => some (t.points.map fun p => .str ⟨[p]⟩)
  | .obj fields => some (fields.map fun (key, _) => .str key)
  | _ => none

def items (v : Json) : Except Fault (List Json) :=
  (items? v).elim (.error (.noItems v.kind)) .ok

/-- The polarity that a sign stands for. -/
def polarity? : Json → Option Bool
  | .str t => if t = "-" then some false else if t = "+" then some true else none
  | _ => none

/-- A literal whose atom has still to be looked at: its polarity and the atom. -/
def signedAtom (pair : Json) : Except Fault (Bool × Json) :=
  match items? pair with
  | none => .error (.noPair pair.kind)
  | some [sign, atom] =>
    match polarity? sign with
    | some positive => .ok (positive, atom)
    | none => .error (.badSign sign pair)
  | some [] => .error (.tooFewParts 0)
  | some [_] => .error (.tooFewParts 1)
  | some _ => .error .tooManyParts

/-- Atoms have no parts. -/
def plainAtom (atom : Json) : Except Fault Json :=
  match atom with
  | .arr _ | .obj _ => .error (.compoundAtom atom.kind)
  | _ => .ok atom

/-- The entry of a clause: its literals as polarities and atoms, its source, and its step. -/
structure Entry where
  literals : List (Bool × Json)
  source : List Json
  step : Json
deriving Repr

namespace Entry

/-- The atoms of an entry are looked at last. -/
def ofJson (entry : Json) : Except Fault Entry := do
  let pairs ← (← field entry "literals" >>= items).mapM signedAtom
  let fields := match entry with
    | .obj fields => fields
    | _ => []
  let source ← items ((Json.field? fields "source").getD (.arr []))
  let step := (Json.field? fields "step").getD (.int 0)
  let literals ← pairs.mapM fun (positive, atom) => return (positive, ← plainAtom atom)
  return { literals, source, step }

def atomText : Json → Except Fault String
  | .str t => .ok t.toString
  | v => .error (.badAtom v.kind)

def sourceText : Json → Except Fault String
  | .str t => .ok t.toString
  | v => .error (.badSource v.kind)

def stepNumber : Json → Except Fault Int
  | .int n => .ok n
  | v => .error (.badStep v.kind)

variable (e : Entry)

def readLiterals : Except Fault (List Literal) :=
  e.literals.mapM fun (positive, atom) => return ⟨positive, ← atomText atom⟩

def readClause : Except Fault Clause := do
  return ⟨← e.readLiterals, ← e.source.mapM sourceText, ← stepNumber e.step⟩

/-- Inserts the clause of the entry, unless its literals are in the set already. -/
def insertInto (s : ClauseSet) : Except Fault ClauseSet := do
  if s.contains { literals := ← e.readLiterals } then return s
  else return s.insert (← e.readClause)

end Entry

/-- The set that a document holds. -/
def toSet (document : Json) : Except Fault ClauseSet := do
  let entries ← (← field document "clauses" >>= items).mapM Entry.ofJson
  entries.foldlM (fun s e => e.insertInto s) ∅

/-- The text of a checkpoint. -/
def save (s : ClauseSet) : String :=
  (ofSet s).print

/-- Why a text cannot be loaded. -/
inductive LoadError where
  | unreadable (r : Json.Refusal)
  | fault (f : Fault)
deriving Repr

/-- The set that a text holds, with integers of as many digits as the limit allows. -/
def load (text : String) (limit : Option Nat := some Text.maxDigits) :
    Except LoadError ClauseSet :=
  match Json.parse text limit with
  | .error r => .error (.unreadable r)
  | .ok document => (toSet document).mapError .fault

end Resolution.Checkpoint
