import Resolution.Clause.Normal

/-!
# Renamings

A renaming puts a literal in the place of each atom: another name for it, and the other polarity
where that is wanted. Different atoms get literals over different atoms.
-/

namespace Resolution

structure Renaming where
  image : String → Literal
  atom_inj : ∀ a b, (image a).atom = (image b).atom → a = b

namespace Renaming

variable (ρ : Renaming) {l m : Literal}

/-- The image of the atom, negated if the literal is negative. -/
def literal (l : Literal) : Literal :=
  if l.positive then ρ.image l.atom else (ρ.image l.atom).negate

def clause (c : Clause) : Clause :=
  { c with literals := c.literals.map ρ.literal }

theorem atom_literal (l : Literal) : (ρ.literal l).atom = (ρ.image l.atom).atom := by
  unfold literal
  split <;> rfl

@[simp]
theorem literal_negate (l : Literal) : ρ.literal l.negate = (ρ.literal l).negate := by
  cases h : l.positive <;> simp [literal, Literal.negate, h]

@[simp]
theorem literal_inj : ρ.literal l = ρ.literal m ↔ l = m := by
  refine ⟨fun h => ?_, fun h => h ▸ rfl⟩
  have hatom : l.atom = m.atom := by
    refine ρ.atom_inj _ _ ?_
    rw [← atom_literal, ← atom_literal, h]
  rcases Literal.eq_or_eq_negate hatom with heq | heq
  · exact heq
  · rw [heq, literal_negate] at h
    exact absurd h (Literal.negate_ne_self _)

end Renaming

end Resolution
