import Mathlib.Data.Finset.Card
import Mathlib.Data.Finset.Dedup
import Resolution.Semantics
import Resolution.Subsumption

/-!
# Dropping subsumed clauses

A clause is reported as subsumed whenever the list has a smaller one, be that one reported or not.
From a reported clause a chain of smaller and smaller clauses leads down, and it comes to an end as
the numbers of distinct literals decrease; the clause at its end is not reported
(`exists_irredundant_subsumes`). So all reported clauses can be dropped at once, and none of those
that are left subsumes another.

Clauses with the same literals in another order, or with repeats, do not subsume each other: none
of them is dropped for the others' sake.
-/

namespace Resolution

variable {cs : List Clause} {c d e : Clause}

namespace Clause

theorem subsumes_iff_ssubset :
    c.subsumes d = true ↔ c.literals.toFinset ⊂ d.literals.toFinset := by
  rw [subsumes_iff, Finset.ssubset_def, Finset.not_subset]
  simp [Finset.subset_iff]

theorem subsumes_trans (h : c.subsumes d = true) (h' : d.subsumes e = true) :
    c.subsumes e = true := by
  rw [subsumes_iff_ssubset] at *
  exact h.trans h'

/-- What subsumes a clause subsumes every other with the same literals. -/
theorem subsumes_congr (h : d.literals = e.literals) : c.subsumes d = c.subsumes e := by
  rw [subsumes, h, subsumes]

end Clause

theorem Assignment.satisfies_of_subsumes (v : Assignment) (h : c.subsumes d = true)
    (hc : v.Satisfies c) : v.Satisfies d := by
  obtain ⟨l, hl, hv⟩ := hc
  exact ⟨l, (Clause.subsumes_iff.mp h).1 l hl, hv⟩

theorem mem_subsumed : c ∈ subsumed cs ↔ c ∈ cs ∧ ∃ d ∈ cs, d.subsumes c = true := by
  simp [subsumed]

theorem mem_irredundant : c ∈ irredundant cs ↔ c ∈ cs ∧ ∀ d ∈ cs, d.subsumes c = false := by
  simp only [irredundant, List.mem_filter, List.all_eq_true, decide_eq_true_eq]
  refine and_congr_right fun hc => ⟨fun h d hd => ?_, fun h b hb hbc => ?_⟩
  · by_contra hdc
    rw [Bool.not_eq_false] at hdc
    exact h c (mem_subsumed.mpr ⟨hc, d, hd, hdc⟩) rfl
  · obtain ⟨-, d, hd, hdb⟩ := mem_subsumed.mp hb
    rw [Clause.subsumes_congr hbc, h d hd] at hdb
    exact Bool.false_ne_true hdb

/-- Every clause of the list is left or is reported. -/
theorem mem_irredundant_or_subsumed (hc : c ∈ cs) : c ∈ irredundant cs ∨ c ∈ subsumed cs := by
  by_cases h : ∃ d ∈ cs, d.subsumes c = true
  · exact .inr (mem_subsumed.mpr ⟨hc, h⟩)
  · refine .inl (mem_irredundant.mpr ⟨hc, fun d hd => ?_⟩)
    rw [← Bool.not_eq_true]
    exact fun hdc => h ⟨d, hd, hdc⟩

theorem exists_irredundant_subsumes {c : Clause} (hc : c ∈ subsumed cs) :
    ∃ d ∈ irredundant cs, d.subsumes c = true := by
  obtain ⟨-, d, hd, hdc⟩ := mem_subsumed.mp hc
  rcases mem_irredundant_or_subsumed hd with hleft | hreported
  · exact ⟨d, hleft, hdc⟩
  · obtain ⟨e, he, hed⟩ := exists_irredundant_subsumes hreported
    exact ⟨e, he, Clause.subsumes_trans hed hdc⟩
termination_by c.literals.toFinset.card
decreasing_by exact Finset.card_lt_card (Clause.subsumes_iff_ssubset.mp hdc)

/-- Every clause that is reported as subsumed is subsumed by one that is left when all of these are
dropped. So what is left is satisfied by the same assignments as the list, and none of it subsumes
another. -/
theorem irredundant_subsumes (cs : List Clause) :
    (∀ c ∈ subsumed cs, ∃ d ∈ irredundant cs, d.subsumes c = true)
      ∧ (∀ v : Assignment, v.SatisfiesAll (irredundant cs) ↔ v.SatisfiesAll cs)
      ∧ ∀ c ∈ irredundant cs, ∀ d ∈ irredundant cs, c.subsumes d = false := by
  refine ⟨fun c hc => exists_irredundant_subsumes hc,
    fun v => ⟨fun hv c hc => ?_, fun hv c hc => hv c (mem_irredundant.mp hc).1⟩,
    fun c hc d hd => (mem_irredundant.mp hd).2 c (mem_irredundant.mp hc).1⟩
  rcases mem_irredundant_or_subsumed hc with hleft | hreported
  · exact hv c hleft
  · obtain ⟨d, hd, hdc⟩ := exists_irredundant_subsumes hreported
    exact v.satisfies_of_subsumes hdc (hv d hd)

/-- The second and the third clause are the same set of literals. Both go, as does the first, and
all three for the sake of the fourth. -/
theorem irredundant_subsumes_chain :
    let abc : Clause := { literals := [⟨true, "C"⟩, ⟨true, "B"⟩, ⟨true, "A"⟩] }
    let bab : Clause := { literals := [⟨true, "B"⟩, ⟨true, "A"⟩, ⟨true, "B"⟩] }
    let ab : Clause := { literals := [⟨true, "A"⟩, ⟨true, "B"⟩] }
    let a : Clause := { literals := [⟨true, "A"⟩] }
    let nb : Clause := { literals := [⟨false, "B"⟩] }
    let cs := [abc, bab, ab, a, nb]
    let v : Assignment := fun atom => atom = "A"
    subsumed cs = [abc, bab, ab] ∧ irredundant cs = [a, nb]
      ∧ (∃ d ∈ irredundant cs, d.subsumes abc = true) ∧ v.SatisfiesAll cs
      ∧ a.subsumes nb = false := by
  intro abc bab ab a nb cs v
  obtain ⟨hreported, hsatisfied, hleft⟩ := irredundant_subsumes cs
  have hirredundant : irredundant cs = [a, nb] := by decide
  refine ⟨by decide, hirredundant, hreported abc (by decide), (hsatisfied v).mp ?_,
    hleft a (by decide) nb (by decide)⟩
  rw [hirredundant, Assignment.SatisfiesAll]
  decide

end Resolution
