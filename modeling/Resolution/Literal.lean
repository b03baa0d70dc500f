import Resolution.Text.Quoted

/-!
# Literals

A literal asserts an atom or denies it. Atoms are opaque: any text is an atom, and two atoms are
the same only when they are the same text. Literals are ordered by polarity first, the negative
ones before the positive ones, and by the code points of their atoms second.
-/

namespace Resolution

structure Literal where
  positive : Bool
  atom : String
deriving DecidableEq, Repr

namespace Literal

/-- The same atom with the other polarity. -/
def negate (l : Literal) : Literal :=
  { l with positive := !l.positive }

@[simp]
theorem negate_negate (l : Literal) : l.negate.negate = l := by
  simp [negate]

theorem negate_ne_self (l : Literal) : l.negate ≠ l := by
  intro h
  have := congrArg positive h
  simp [negate] at this

theorem negate_eq_iff {l m : Literal} : l.negate = m ↔ l = m.negate :=
  ⟨fun h => by rw [← h, negate_negate], fun h => by rw [h, negate_negate]⟩

theorem negate_inj {l m : Literal} : l.negate = m.negate ↔ l = m := by
  rw [negate_eq_iff, negate_negate]

theorem eq_or_eq_negate {l m : Literal} (h : l.atom = m.atom) : l = m ∨ l = m.negate := by
  obtain ⟨p, a⟩ := l
  obtain ⟨q, b⟩ := m
  cases p <;> cases q <;> simp_all [negate]

/-- The literal as a clause shows it. -/
def name (l : Literal) : String :=
  if l.positive then l.atom else "(not " ++ l.atom ++ ")"

/-- The literal with its polarity spelled out and its atom quoted. -/
def display (l : Literal) : String :=
  (if l.positive then "Positive(" else "Negative(") ++ Text.quote l.atom ++ ")"

/-- Negative literals rank before positive ones. -/
def rank (l : Literal) : Nat :=
  if l.positive then 1 else 0

theorem rank_inj {l m : Literal} : l.rank = m.rank ↔ l.positive = m.positive := by
  cases hl : l.positive <;> cases hm : m.positive <;> simp [rank, hl, hm]

instance : LT Literal where
  lt l m := l.rank < m.rank ∨ l.rank = m.rank ∧ l.atom < m.atom

theorem lt_def {l m : Literal} :
    l < m ↔ l.rank < m.rank ∨ l.rank = m.rank ∧ l.atom < m.atom :=
  Iff.rfl

instance (l m : Literal) : Decidable (l < m) :=
  inferInstanceAs (Decidable (l.rank < m.rank ∨ l.rank = m.rank ∧ l.atom < m.atom))

theorem lt_irrefl (l : Literal) : ¬ l < l := by
  rintro (h | ⟨_, h⟩)
  · exact Nat.lt_irrefl _ h
  · exact String.lt_irrefl _ h

theorem lt_trans {l m n : Literal} (h : l < m) (h' : m < n) : l < n := by
  rw [lt_def] at *
  rcases h with h | ⟨h, hs⟩ <;> rcases h' with h' | ⟨h', hs'⟩
  · exact .inl (Nat.lt_trans h h')
  · exact .inl (h' ▸ h)
  · exact .inl (h ▸ h')
  · exact .inr ⟨h.trans h', String.lt_trans hs hs'⟩

/-- Any two literals are comparable. -/
theorem lt_or_eq_or_gt (l m : Literal) : l < m ∨ l = m ∨ m < l := by
  rw [lt_def, lt_def]
  rcases Nat.lt_trichotomy l.rank m.rank with h | h | h
  · exact .inl (.inl h)
  · by_cases hs : l.atom < m.atom
    · exact .inl (.inr ⟨h, hs⟩)
    by_cases hs' : m.atom < l.atom
    · exact .inr (.inr (.inr ⟨h.symm, hs'⟩))
    · have ha : l.atom = m.atom := String.le_antisymm (String.not_lt.mp hs') (String.not_lt.mp hs)
      have hp := rank_inj.mp h
      cases l; cases m; simp_all
  · exact .inr (.inr (.inl h))

end Literal

end Resolution
