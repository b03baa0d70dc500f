import Resolution.Clause

/-!
# Derivation graphs

The derivation graph of a list of clauses, in the DOT language. Every clause is a node, grey when
it belongs to the knowledge base and blue when it was derived, and an edge leads to it from each
of its parents. An edge that recurs is written once, at its first place.
-/

namespace Resolution.DerivationGraph

/-- The text between double quotes, in which a double quote is written behind a backslash. -/
def quoteName (text : String) : List Char :=
  '"' :: text.toList.flatMap (fun c => if c = '"' then ['\\', '"'] else [c]) ++ ['"']

/-- The edges in the order of the clauses and of their sources, each at its first place. -/
def edges (cs : List Clause) : List (String × String) :=
  (cs.flatMap fun c => c.source.map fun parent => (parent, c.name)).eraseDups

def color (c : Clause) : String :=
  if c.step = 0 then "lightgray" else "lightblue"

def nodeStatement (c : Clause) : String :=
  "  " ++ .ofList (quoteName c.name) ++ " [fillcolor=" ++ color c ++ ", style=filled];"

def edgeStatement (edge : String × String) : String :=
  "  " ++ .ofList (quoteName edge.1) ++ " -> " ++ .ofList (quoteName edge.2) ++ ";"

def lines (cs : List Clause) : List String :=
  ["digraph propres \x7b", "  rankdir=BT;", "  node [shape=box, style=rounded];"] ++
    cs.map nodeStatement ++ (edges cs).map edgeStatement ++ ["\x7d"]

/-- The graph as text. -/
def render (cs : List Clause) : String :=
  Text.unlines (lines cs)

end Resolution.DerivationGraph
