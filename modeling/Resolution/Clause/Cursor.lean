import Resolution.Clause.Reader

/-!
# Reading a clause by positions

Beside the reader that takes tokens off the front of their list stands one that moves a position
over all of them. It looks a token up by its number, and its loop goes round until the position has
come to the last token, which has to close the clause. So it can go wrong in two more ways: there
may be no token at the position, and the loop may not come to an end.
-/

namespace Resolution

/-- Why reading by positions gives no literals. -/
inductive CursorError where
  | refused (e : ReadError)
  | noToken (position : Nat)
  /-- The loop has gone round as often as it may. -/
  | unfinished
deriving DecidableEq, Repr

def tokenAt (ts : List Token) (i : Nat) : Except CursorError Token :=
  match ts[i]? with
  | some t => .ok t
  | none => .error (.noToken i)

/-- The atom that three tokens behind a parenthesis deny. -/
def deniedAtom : Token → Token → Token → Except CursorError String
  | .word keyword, .word atom, .closing =>
    if isNegation keyword then .ok atom else .error (.refused .badNesting)
  | _, _, _ => .error (.refused .badNesting)

/-- The literal that begins at position `i`, and the position behind it. Behind a parenthesis three
tokens are looked at, or those that are left if they are fewer. -/
def literalAt (ts : List Token) (i : Nat) : Except CursorError (Literal × Nat) := do
  match ← tokenAt ts i with
  | .closing => .error (.refused .strayClosing)
  | .word atom => .ok (⟨true, atom⟩, i + 1)
  | .opening =>
    let inner := (ts.drop (i + 1)).take 3
    if inner.length < 3 then .error (.refused .badNesting)
    else
      let atom ← deniedAtom (← tokenAt inner 0) (← tokenAt inner 1) (← tokenAt inner 2)
      return (⟨false, atom⟩, i + 4)

/-- The literals from position `i` on, and the position at which the loop ends: the first that is
not in front of `last`. -/
def literalsFrom (ts : List Token) (last : Nat) :
    (rounds : Nat) → (i : Nat) → Except CursorError (List Literal × Nat)
  | 0, i => if i < last then .error .unfinished else .ok ([], i)
  | rounds + 1, i =>
    if i < last then do
      let (l, j) ← literalAt ts i
      let (ls, k) ← literalsFrom ts last rounds j
      return (l :: ls, k)
    else .ok ([], i)

/-- The literals that were read, if the loop has ended at `last`. -/
def endingAt (last : Nat) : List Literal × Nat → Except CursorError (List Literal)
  | (ls, i) => if i = last then .ok ls else .error (.refused .unbalanced)

/-- The literals of a clause. The loop may go round once for each token. -/
def literalsByPosition (ts : List Token) : Except CursorError (List Literal) :=
  if ts.isEmpty then .error (.refused .noOpening)
  else do
    if (← tokenAt ts 0) ≠ .opening then .error (.refused .noOpening)
    else do
      if (← tokenAt ts (ts.length - 1)) ≠ .closing then .error (.refused .noClosing)
      else do
        let found ← literalsFrom ts (ts.length - 1) ts.length 1
        endingAt (ts.length - 1) found

/-- The clause in normal form. -/
def Clause.readByPosition (s : String) : Except CursorError Clause := do
  let ts ← (tokenize s).mapError .refused
  let literals ← literalsByPosition ts
  return standardize { literals }

end Resolution
