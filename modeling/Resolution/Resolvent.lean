import Resolution.Clause.Normal

/-!
# Resolvents

Two clauses resolve on every pair of positions that hold a literal and its negation: the two
literals go, and what is left of both clauses is joined and brought into normal form.
-/

namespace Resolution

/-- The resolvent of `a` and `b` on the literals at positions `i` and `j`. -/
def resolventAt (a b : Clause) (i j : Nat) : Clause :=
  Clause.standardize ⟨a.literals.eraseIdx i ++ b.literals.eraseIdx j, [a.name, b.name], 0⟩

@[simp]
theorem source_resolventAt (a b : Clause) (i j : Nat) :
    (resolventAt a b i j).source = [a.name, b.name] := rfl

/-- The resolvents of `a` and `b`, one for each pair of positions that clash. -/
def resolve (a b : Clause) : List Clause :=
  a.literals.zipIdx.flatMap fun (l, i) =>
    b.literals.zipIdx.filterMap fun (m, j) =>
      if m = l.negate then some (resolventAt a b i j) else none

theorem mem_resolve {a b r : Clause} :
    r ∈ resolve a b ↔ ∃ i j l, a.literals[i]? = some l ∧ b.literals[j]? = some l.negate ∧
      r = resolventAt a b i j := by
  simp only [resolve, List.mem_flatMap, List.mem_filterMap, Prod.exists,
    List.mem_zipIdx_iff_getElem?]
  constructor
  · rintro ⟨l, i, hl, m, j, hm, h⟩
    split at h
    · exact ⟨i, j, l, hl, by simp_all, by simp_all⟩
    · simp at h
  · rintro ⟨i, j, l, hl, hm, rfl⟩
    exact ⟨l, i, hl, l.negate, j, hm, by simp⟩

end Resolution
