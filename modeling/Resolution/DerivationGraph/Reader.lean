import Resolution.DerivationGraph

/-!
# Reading derivation graphs

The rule of the DOT language for names between double quotes: a backslash directly before a
double quote makes it part of the name, and any other character stands for itself. The name ends
at the first double quote that no backslash is taken with.

A graph is read statement by statement, each on from where the one before it ended.
-/

namespace Resolution.DerivationGraph

/-- The name that continues here and what follows its closing quote. -/
def readNameRest : List Char → Option (List Char × List Char)
  | [] => none
  | '"' :: rest => some ([], rest)
  | '\\' :: '"' :: cs => (readNameRest cs).map fun (name, rest) => ('"' :: name, rest)
  | c :: cs => (readNameRest cs).map fun (name, rest) => (c :: name, rest)

/-- The name behind an opening quote and what follows its closing quote. -/
def readName? : List Char → Option (List Char × List Char)
  | '"' :: cs => readNameRest cs
  | _ => none

/-- So many names, each from the next double quote on, and what follows the last of them. -/
def readNames? : Nat → List Char → Option (List (List Char) × List Char)
  | 0, text => some ([], text)
  | count + 1, text => do
    let (name, rest) ← readName? (text.dropWhile (· ≠ '"'))
    let (names, rest) ← readNames? count rest
    return (name :: names, rest)

/-- What the text of a graph says: the nodes with their colours, and the edges, in the order of
their statements. -/
structure Graph where
  nodes : List (String × String)
  edges : List (String × String)
deriving DecidableEq, Repr

/-- The graph of the clauses: every clause is a node, and an edge leads to it from each of its
parents. -/
def graph (cs : List Clause) : Graph :=
  ⟨cs.map fun c => (c.name, color c), edges cs⟩

inductive Statement where
  | node (name color : String)
  | edge (parent child : String)
deriving DecidableEq, Repr

/-- The graph with one more statement in front. -/
def Graph.cons (g : Graph) : Statement → Graph
  | .node name color => { g with nodes := (name, color) :: g.nodes }
  | .edge parent child => { g with edges := (parent, child) :: g.edges }

/-- What follows the given text. -/
def skip? (start : String) (text : List Char) : Option (List Char) :=
  start.toList.isPrefixOf? text

/-- The colour among the attributes of a node, and what follows the statement. -/
def readColor? (text : List Char) : Option (String × List Char) := do
  let text ← skip? " [fillcolor=" text
  let rest ← skip? ", style=filled];\n" (text.dropWhile (· ≠ ','))
  return (.ofList (text.takeWhile (· ≠ ',')), rest)

/-- The end of an edge, and what follows the statement. -/
def readChild? (text : List Char) : Option (String × List Char) := do
  let (name, rest) ← readName? (← skip? " -> " text)
  let rest ← skip? ";\n" rest
  return (.ofList name, rest)

def readStatement? (text : List Char) : Option (Statement × List Char) := do
  let (name, rest) ← readName? (← skip? "  " text)
  match readColor? rest with
  | some (color, rest) => return (.node (.ofList name) color, rest)
  | none =>
    let (child, rest) ← readChild? rest
    return (.edge (.ofList name) child, rest)

/-- What the statements up to the closing brace say, if there are fewer than so many. -/
def readStatements? : Nat → List Char → Option Graph
  | 0, _ => none
  | count + 1, text =>
    match readStatement? text with
    | some (statement, rest) => (readStatements? count rest).map (·.cons statement)
    | none => if text = "\x7d\n".toList then some ⟨[], []⟩ else none

/-- What the text of a graph says. No text has more statements than characters. -/
def readGraph? (text : String) : Option Graph := do
  let rest ← skip? "digraph propres \x7b\n  rankdir=BT;\n  node [shape=box, style=rounded];\n"
    text.toList
  readStatements? rest.length rest

end Resolution.DerivationGraph
