import Resolution.Proofs.Closures
import Resolution.Semantics

/-!
# When a closure follows from its knowledge base

A resolvent loses all that clashes between its parents. Where this is one pair only, it holds
wherever the parents do (`Assignment.satisfies_of_mem_resolve`); where it is more, literals go that
had to stay. So a closure follows from its knowledge base, and the contradictions it derives are
contradictions, as long as none of its clauses clashes more than once with one of the knowledge
base.
-/

namespace Resolution

namespace Assignment

variable (v : Assignment)

theorem satisfies_of_mem_resolve {a b r : Clause} (ha : NormalForm a.literals)
    (hb : NormalForm b.literals) (honce : (clashes a b).length ≤ 1) (hr : r ∈ resolve a b)
    (hva : v.Satisfies a) (hvb : v.Satisfies b) : v.Satisfies r := by
  obtain ⟨p, hpa, hpb⟩ := exists_clash_of_mem_resolve hr
  have hmem : ∀ m, m ∈ r.literals
      ↔ m ∈ a.literals ∧ m ≠ p ∨ m ∈ b.literals ∧ m ≠ p.negate := fun m =>
    ha.mem_resolvent_of_once hb hpa hpb (eq_of_length_clashes_le_one honce hpa hpb) hr
  obtain ⟨l, hl, hvl⟩ := hva
  by_cases hlp : l = p
  · -- then the other half of the pivot does not hold, and some other literal of `b` does
    obtain ⟨m, hm, hvm⟩ := hvb
    have hne : m ≠ p.negate := by
      rintro rfl
      exact v.holds_negate.mp hvm (hlp ▸ hvl)
    exact ⟨m, (hmem m).mpr (.inr ⟨hm, hne⟩), hvm⟩
  · exact ⟨l, (hmem l).mpr (.inl ⟨hl, hlp⟩), hvl⟩

variable {cs : List Clause} {limit : Option ℤ} {stop : StopCondition}

theorem satisfiesAll_closure (honce : ∀ k ∈ (KnowledgeBase.ofList cs).toList,
      ∀ c ∈ (closure cs limit stop).toList, (clashes k c).length ≤ 1)
    (hv : v.SatisfiesAll (KnowledgeBase.ofList cs).toList) :
    v.SatisfiesAll (closure cs limit stop).toList := by
  intro c hc
  refine closure_induction (P := fun ls => v.Satisfies { literals := ls }) hv ?_ hc
  intro k hk q hq hvq r hr _
  have hvr : v.Satisfies r := v.satisfies_of_mem_resolve (KnowledgeBase.normalForm_of_mem hk)
    (normalForm_of_mem_closure hq) (honce k hk q hq) hr (hv k hk) hvq
  exact hvr

end Assignment

/-- As long as no clause of the knowledge base clashes with one of the closure in more than one
pair of literals, every assignment that satisfies the knowledge base satisfies the closure, and
none satisfies it once resolution has reported a contradiction. -/
theorem closure_sound (cs : List Clause) (limit : Option ℤ) (stop : StopCondition)
    (honce : ∀ k ∈ (KnowledgeBase.ofList cs).toList, ∀ c ∈ (closure cs limit stop).toList,
      (clashes k c).length ≤ 1) :
    (∀ v : Assignment, v.SatisfiesAll (KnowledgeBase.ofList cs).toList →
        v.SatisfiesAll (closure cs limit stop).toList)
      ∧ ((closure cs limit stop).contradictions ≠ [] →
        ¬ ∃ v : Assignment, v.SatisfiesAll (KnowledgeBase.ofList cs).toList) := by
  refine ⟨fun v hv => v.satisfiesAll_closure honce hv, ?_⟩
  rintro hne ⟨v, hv⟩
  obtain ⟨r, hr⟩ := List.exists_mem_of_ne_nil _ hne
  obtain ⟨k, hk, q, hq, hmem, hempty⟩ := exists_parents_of_mem_contradictions hr
  have hvq : v.Satisfies q := v.satisfiesAll_closure honce hv q hq
  have hvr : v.Satisfies r := v.satisfies_of_mem_resolve (KnowledgeBase.normalForm_of_mem hk)
    (normalForm_of_mem_closure hq) (honce k hk q hq) hmem (hv k hk) hvq
  exact v.not_satisfies_of_isEmpty hempty hvr

/-- The chain and the denial of its end, run for three rounds: nothing clashes twice, and a
contradiction is found. -/
theorem closure_sound_chain :
    let cs : List Clause := ⟨[⟨false, "C"⟩], [], 0⟩ :: chain
    let kb := KnowledgeBase.ofList cs
    let c := closure cs (some 3) fun known _ => 12 ≤ known.size
    (∀ k ∈ kb.toList, ∀ d ∈ c.toList, (clashes k d).length ≤ 1) ∧ c.contradictions ≠ []
      ∧ (∀ v : Assignment, v.SatisfiesAll kb.toList → v.SatisfiesAll c.toList)
      ∧ ¬ ∃ v : Assignment, v.SatisfiesAll kb.toList := by
  intro cs kb c
  have honce : ∀ k ∈ kb.toList, ∀ d ∈ c.toList, (clashes k d).length ≤ 1 := by decide
  have hne : c.contradictions ≠ [] := by decide
  obtain ⟨hsat, hunsat⟩ := closure_sound cs _ _ honce
  exact ⟨honce, hne, hsat, hunsat hne⟩

-- with two clashes an empty clause is reported that no contradiction stands behind
example :
    let cs : List Clause := [⟨[⟨true, "A"⟩, ⟨true, "B"⟩], [], 0⟩,
      ⟨[⟨false, "A"⟩, ⟨false, "B"⟩], [], 0⟩]
    let v : Assignment := fun a => a = "A"
    (closure cs).contradictions ≠ [] ∧ ∀ c ∈ cs, v.Satisfies c := by decide

end Resolution
