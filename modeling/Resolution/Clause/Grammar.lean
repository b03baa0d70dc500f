import Resolution.Clause.Reader

/-!
# The grammar of clauses

The token lists that write a clause, together with the literals that they write.
-/

namespace Resolution

/-- The tokens write this one literal. -/
inductive WritesLiteral : List Token → Literal → Prop where
  | positive (atom : String) : WritesLiteral [.word atom] ⟨true, atom⟩
  | negative {keyword : String} (atom : String) : isNegation keyword = true →
      WritesLiteral [.opening, .word keyword, .word atom, .closing] ⟨false, atom⟩

/-- The tokens write these literals one after the other. -/
inductive WritesLiterals : List Token → List Literal → Prop where
  | nil : WritesLiterals [] []
  | cons {ts us : List Token} {l : Literal} {ls : List Literal} :
      WritesLiteral ts l → WritesLiterals us ls → WritesLiterals (ts ++ us) (l :: ls)

/-- The tokens write a clause with these literals. -/
inductive WritesClause : List Token → List Literal → Prop where
  | intro {ts : List Token} {ls : List Literal} :
      WritesLiterals ts ls → WritesClause (.opening :: ts ++ [.closing]) ls

/-- The text is a clause made of these pieces, each of them the tokens of a literal: there is no
semicolon in it, and its tokens are those of the pieces one after the other, in parentheses. -/
structure Clause.MadeOf (s : String) (pieces : List (List Token × Literal)) : Prop where
  noSemicolon : ';' ∉ s.toList
  tokens : tokenize s = .ok (.opening :: pieces.flatMap Prod.fst ++ [.closing])
  writes : ∀ piece ∈ pieces, WritesLiteral piece.1 piece.2

theorem WritesLiteral.ne_nil {ts : List Token} {l : Literal} (h : WritesLiteral ts l) :
    ts ≠ [] := by
  cases h <;> simp

end Resolution
