import Resolution.Clause.Cursor
import Resolution.Proofs.Tokens

/-!
# The two readers agree

The reader that moves a position over the tokens comes to what the one that takes them off their
list comes to, on every text (`Clause.readByPosition_eq`). Where a literal begins, both find the
same one, and the position moves past its tokens and stays within their number; or both refuse what
is there for the same reason (`literalAt_cases`). So the loop needs no more rounds than there are
tokens, and a position that is looked up always has a token. It may end behind the last token, where
looking ahead has taken the parenthesis that should close the clause: there the other reader has no
token left either.
-/

namespace Resolution

section Positions

variable {ts us : List Token} {t : Token} {i last : ℕ}

theorem tokenAt_of_drop (h : ts.drop i = t :: us) : tokenAt ts i = .ok t := by
  have ht : ts[i]? = some t := by rw [← List.head?_drop, h, List.head?_cons]
  rw [tokenAt, ht]

theorem drop_succ_of_drop (h : ts.drop i = t :: us) : ts.drop (i + 1) = us := by
  rw [← List.drop_drop, h, List.drop_one, List.tail_cons]

/-- The tokens are those of a negative literal behind its parenthesis, and then others. -/
def Denies (us : List Token) : Prop :=
  ∃ keyword atom rest, isNegation keyword = true
    ∧ us = .word keyword :: .word atom :: .closing :: rest

theorem readLiterals_of_not_denies (hne : us ≠ []) (h : ¬ Denies us) :
    readLiterals (.opening :: us) = .error .badNesting := by
  generalize htokens : Token.opening :: us = tokens
  fun_cases readLiterals tokens with
  | case1 => cases htokens
  | case2 t => exact absurd (List.cons.inj htokens).2 hne
  | case3 => cases htokens
  | case4 => cases htokens
  | case5 keyword atom rest hk =>
    exact absurd ⟨keyword, atom, rest, hk, (List.cons.inj htokens).2⟩ h
  | case6 => rfl
  | case7 => rfl

theorem deniedAtom_of_not_denies {x y z : Token} (h : ¬ Denies (x :: y :: z :: us)) :
    deniedAtom x y z = .error (.refused .badNesting) := by
  unfold deniedAtom
  split
  · rw [if_neg fun hk => h ⟨_, _, us, hk, rfl⟩]
  · rfl

theorem literalAt_of_not_denies (hdrop : ts.drop i = .opening :: us) (h : ¬ Denies us) :
    literalAt ts i = .error (.refused .badNesting) := by
  rw [literalAt, tokenAt_of_drop hdrop, drop_succ_of_drop hdrop]
  rcases us with _ | ⟨x, _ | ⟨y, _ | ⟨z, us⟩⟩⟩
  · rfl
  · rfl
  · rfl
  · change deniedAtom x y z >>= _ = _
    rw [deniedAtom_of_not_denies h]
    rfl

/-- One literal is found where it is the first to be read of the tokens that are left, and the
position moves past its tokens; or both readers refuse what is there. -/
theorem literalAt_cases (hdrop : ts.drop i = t :: us) (hne : us ≠ []) :
    (∃ l j, literalAt ts i = .ok (l, j) ∧ i < j ∧ j ≤ ts.length
        ∧ readLiterals (t :: us) = (readLiterals (ts.drop j)).map (l :: ·))
      ∨ ∃ e, literalAt ts i = .error (.refused e) ∧ readLiterals (t :: us) = .error e := by
  have hlength : (t :: us).length = ts.length - i := by rw [← hdrop, List.length_drop]
  cases t with
  | closing =>
    have hread : readLiterals (.closing :: us) = .error .strayClosing := by
      rcases us with _ | ⟨u, us⟩
      · exact absurd rfl hne
      · rfl
    exact .inr ⟨.strayClosing, by rw [literalAt, tokenAt_of_drop hdrop]; rfl, hread⟩
  | word atom =>
    rw [List.length_cons] at hlength
    refine .inl ⟨⟨true, atom⟩, i + 1, by rw [literalAt, tokenAt_of_drop hdrop]; rfl, by omega,
      by omega, ?_⟩
    rw [drop_succ_of_drop hdrop, readLiterals_word atom hne]
  | opening =>
    by_cases hdenies : Denies us
    · obtain ⟨keyword, atom, rest, hk, rfl⟩ := hdenies
      simp only [List.length_cons] at hlength
      refine .inl ⟨⟨false, atom⟩, i + 4, ?_, by omega, by omega, ?_⟩
      · rw [literalAt, tokenAt_of_drop hdrop, drop_succ_of_drop hdrop]
        change deniedAtom (.word keyword) (.word atom) .closing >>= _ = _
        rw [deniedAtom, if_pos hk]
        rfl
      · have hrest : ts.drop (i + 4) = rest := by
          rw [← List.drop_drop, hdrop]
          rfl
        rw [hrest, readLiterals, if_pos hk]
    · exact .inr ⟨.badNesting, literalAt_of_not_denies hdrop hdenies,
        readLiterals_of_not_denies hne hdenies⟩

theorem bind_endingAt_cons (l : Literal) (x : Except CursorError (List Literal × ℕ)) :
    ((do let (ls, k) ← x; return (l :: ls, k)) >>= endingAt last)
      = (x >>= endingAt last).map (l :: ·) := by
  rcases x with e | ⟨ls, k⟩
  · rfl
  · change endingAt last (l :: ls, k) = (endingAt last (ls, k)).map (l :: ·)
    simp only [endingAt]
    split_ifs <;> rfl

theorem mapError_map {ε ε' α β : Type*} (f : ε → ε') (g : α → β) (x : Except ε α) :
    (x.map g).mapError f = (x.mapError f).map g := by
  cases x <;> rfl

theorem literalsFrom_of_not_lt (h : ¬ i < last) :
    ∀ rounds, literalsFrom ts last rounds i = .ok ([], i)
  | 0 => if_neg h
  | _ + 1 => if_neg h

/-- Allowed a round for every token that is left, the loop reads what the other reader reads. -/
theorem literalsFrom_eq (hlast : ts.length = last + 1) : ∀ (rounds i : ℕ), i ≤ ts.length →
    last ≤ i + rounds →
      literalsFrom ts last rounds i >>= endingAt last = (readLiterals (ts.drop i)).mapError .refused
  | rounds, i, hi, hrounds => by
    have hlength : (ts.drop i).length = last + 1 - i := by rw [List.length_drop, hlast]
    by_cases hlt : i < last
    · obtain ⟨rounds, rfl⟩ : ∃ n, rounds = n + 1 := ⟨rounds - 1, by omega⟩
      obtain ⟨t, us, hdrop⟩ := List.exists_cons_of_length_pos (l := ts.drop i) (by omega)
      have hne : us ≠ [] := by
        rintro rfl
        rw [hdrop, List.length_singleton] at hlength
        omega
      rw [literalsFrom, if_pos hlt, hdrop]
      rcases literalAt_cases hdrop hne with ⟨l, j, hat, hij, hj, hread⟩ | ⟨e, hat, hread⟩
      · have ih := literalsFrom_eq hlast rounds j hj (by omega)
        rw [hread, mapError_map, ← ih, hat]
        exact bind_endingAt_cons l _
      · rw [hread, hat]
        rfl
    · -- at the last token all literals have been read, and behind it the parenthesis has gone too
      rw [literalsFrom_of_not_lt hlt]
      change endingAt last ([], i) = _
      rw [endingAt]
      rcases hdrop : ts.drop i with _ | ⟨t, us⟩
      · rw [hdrop, List.length_nil] at hlength
        rw [if_neg (by omega)]
        rfl
      · rw [hdrop, List.length_cons] at hlength
        obtain rfl : us = [] := List.eq_nil_of_length_eq_zero (by omega)
        rw [if_pos (by omega)]
        rfl

end Positions

theorem tokenAt_length_sub_one {ts : List Token} {t : Token} (h : ts.getLast? = some t) :
    tokenAt ts (ts.length - 1) = .ok t := by
  rw [tokenAt, ← List.getLast?_eq_getElem?, h]

theorem literalsByPosition_eq (ts : List Token) :
    literalsByPosition ts = (literalsOfTokens ts).mapError .refused := by
  rcases ts with _ | ⟨t, us⟩
  · rfl
  obtain ⟨z, hz⟩ : ∃ z, (t :: us).getLast? = some z := ⟨_, List.getLast?_cons⟩
  have hfirst : tokenAt (t :: us) 0 = .ok t := rfl
  have hread := @literalsFrom_eq (t :: us) us.length rfl (t :: us).length 1 (by simp)
    (by simp; omega)
  rw [literalsByPosition, if_neg (by simp), hfirst, tokenAt_length_sub_one hz, literalsOfTokens,
    List.head?_cons, hz]
  simp only [Option.some.injEq, ne_eq]
  by_cases ht : t = .opening
  · by_cases hz' : z = .closing
    · simpa [ht, hz', bind, Except.bind] using hread
    · simp [ht, hz', bind, Except.bind, Except.mapError]
  · simp [ht, bind, Except.bind, Except.mapError]

theorem Clause.readByPosition_eq (s : String) :
    readByPosition s = (read s).mapError .refused := by
  rw [readByPosition, read, written]
  rcases tokenize s with e | ts
  · rfl
  · change literalsByPosition ts >>= _
      = Except.mapError _ (Except.map _ (literalsOfTokens ts >>= _))
    rw [literalsByPosition_eq]
    cases literalsOfTokens ts <;> rfl

/-- Where a clause is cut off in a negative literal, looking ahead takes the last parenthesis. -/
example : Clause.readByPosition "(a (not b)" = .error (.refused .unbalanced) := by decide

end Resolution
