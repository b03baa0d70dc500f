import Resolution.KnowledgeBase
import Resolution.Saturation

/-!
# The closure of a knowledge base

The closure of a list of clauses is what saturation makes of their knowledge base. Its opening
round resolves the knowledge base with itself and is run whenever a round is allowed at all; if it
finds something, saturation goes on from there with the second round.
-/

namespace Resolution

structure Closure where
  kb : KnowledgeBase
  /-- The first round, unless the limit allows none. -/
  opening : Option Round
  /-- The rounds after the first, if it found something. -/
  continuation : Option Run

/-- The closure within a limit on the number of rounds, the opening one included. The stop
condition is told of the empty clauses dropped from the knowledge base too. -/
def closure (cs : List Clause) (limit : Option Int := none) (stop : StopCondition := .never) :
    Closure :=
  let kb := KnowledgeBase.ofList cs
  if limit.any (· ≤ 0) then ⟨kb, none, none⟩
  else
    let opening := Round.perform kb.toList 1 kb.clauses
    if opening.batch.isEmpty then ⟨kb, some opening, none⟩
    else
      ⟨kb, some opening, some (saturate kb.toList opening.known (limit.map (· - 1)) stop 2
        (kb.dropped.length + opening.contradictions.length))⟩

namespace Closure

variable (c : Closure)

/-- The clauses of the knowledge base, followed by those derived from it. -/
def known : ClauseSet :=
  match c.continuation with
  | some run => run.known
  | none => c.kb.clauses

def toList : List Clause :=
  c.known.toList

def rounds : List Round :=
  c.opening.toList ++ c.continuation.toList.flatMap Run.rounds

/-- The contradictions that resolution derived, in order. -/
def contradictions : List Clause :=
  c.rounds.flatMap Round.contradictions

/-- All empty clauses met, those dropped from the knowledge base first. -/
def empties : List Clause :=
  c.kb.dropped ++ c.contradictions

end Closure

end Resolution
