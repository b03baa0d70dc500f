import Resolution.Decimal.Shortest
import Resolution.Text.CodePoint

/-!
# JSON values

The fields of an object keep their order and have distinct keys: a field set again keeps its
place and takes the new value. Numbers are integers of any size or floating-point numbers.
-/

namespace Resolution

inductive Json where
  | null
  | bool (b : Bool)
  | int (n : Int)
  | real (x : Float)
  | str (t : CodeText)
  | arr (items : List Json)
  | obj (fields : List (CodeText × Json))
deriving Repr

namespace Json

/-- A string without loose surrogates. -/
def text (s : String) : Json :=
  .str s

/-- Sets a field of an object. -/
def setField (fields : List (CodeText × Json)) (key : CodeText) (value : Json) :
    List (CodeText × Json) :=
  match fields with
  | [] => [(key, value)]
  | (k, v) :: rest =>
    if k = key then (key, value) :: rest else (k, v) :: setField rest key value

/-- The fields of an object that is written with these, of which the last one of a key counts. -/
def distinctFields (fields : List (CodeText × Json)) : List (CodeText × Json) :=
  fields.foldl (fun acc (key, value) => setField acc key value) []

/-- The value of a field. -/
def field? (fields : List (CodeText × Json)) (key : CodeText) : Option Json :=
  fields.lookup key

inductive Kind where
  | null
  | bool
  | int
  | real
  | str
  | arr
  | obj
deriving DecidableEq, Repr

def kind : Json → Kind
  | null => .null
  | bool _ => .bool
  | int _ => .int
  | real _ => .real
  | str _ => .str
  | arr _ => .arr
  | obj _ => .obj

/-- What messages call a kind of value. -/
def Kind.name : Kind → String
  | null => "NoneType"
  | bool => "bool"
  | int => "int"
  | real => "float"
  | str => "str"
  | arr => "list"
  | obj => "dict"

mutual

/-- A value as messages show it, on one line. -/
def display : Json → String
  | null => "None"
  | bool b => if b then "True" else "False"
  | int n => toString n
  | real x => displayFloat x
  | str t => t.quote
  | arr items => "[" ++ ", ".intercalate (displayItems items) ++ "]"
  | obj fields => "\x7b" ++ ", ".intercalate (displayFields fields) ++ "\x7d"

def displayItems : List Json → List String
  | [] => []
  | v :: vs => v.display :: displayItems vs

def displayFields : List (CodeText × Json) → List String
  | [] => []
  | (k, v) :: rest => (k.quote ++ ": " ++ v.display) :: displayFields rest

end

/-- What is said of a value that has no negation. -/
def notLiteralMessage (v : Json) : String :=
  "not a literal: " ++ v.display

end Json

end Resolution
