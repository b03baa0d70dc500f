import Resolution.Clause

/-!
# Truth

An assignment gives every atom a truth value. A literal holds when its atom has the value of its
polarity, and a clause when one of its literals does, so nothing satisfies the empty clause.
-/

namespace Resolution

abbrev Assignment := String → Bool

namespace Assignment

variable (v : Assignment)

def Holds (l : Literal) : Prop :=
  v l.atom = l.positive

def Satisfies (c : Clause) : Prop :=
  ∃ l ∈ c.literals, v.Holds l

def SatisfiesAll (cs : List Clause) : Prop :=
  ∀ c ∈ cs, v.Satisfies c

instance (l : Literal) : Decidable (v.Holds l) :=
  inferInstanceAs (Decidable (v l.atom = l.positive))

instance (c : Clause) : Decidable (v.Satisfies c) :=
  inferInstanceAs (Decidable (∃ l ∈ c.literals, v.Holds l))

/-- Of a literal and its negation exactly one holds. -/
@[simp]
theorem holds_negate {l : Literal} : v.Holds l.negate ↔ ¬ v.Holds l := by
  cases h : v l.atom <;> cases hp : l.positive <;> simp [Holds, Literal.negate, h, hp]

theorem not_satisfies_of_isEmpty {c : Clause} (h : c.isEmpty = true) : ¬ v.Satisfies c := by
  rintro ⟨l, hl, -⟩
  rw [Clause.isEmpty_iff.mp h] at hl
  exact absurd hl List.not_mem_nil

end Assignment

end Resolution
