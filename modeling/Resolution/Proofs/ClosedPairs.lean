import Resolution.Proofs.Closures
import Resolution.Proofs.SingleClash

/-!
# Pairs that resolve within a closure

Rounds put clauses of the knowledge base on the left only. As the order of two clauses does not
matter to the literals of their resolvents, a closure holds every resolvent of two of its clauses
that is not empty, if one of the two belongs to the knowledge base. Of two derived clauses it need
not (`crossing_not_closed`).

It does so all the same if no clause of the knowledge base clashes more than once with one of the
closure. Nothing is lost then but the literals of the pivot, so the closure holds what input
resolution derives and nothing more, and input resolution is complete.
-/

namespace Resolution

/-- That `B` implies `A`, that `A` and `D` exclude each other, and that `B`, `C` or `D`. -/
def crossing : List Clause :=
  [⟨[⟨false, "B"⟩, ⟨true, "A"⟩], [], 0⟩, ⟨[⟨false, "A"⟩, ⟨false, "D"⟩], [], 0⟩,
    ⟨[⟨true, "B"⟩, ⟨true, "C"⟩, ⟨true, "D"⟩], [], 0⟩]

/-- The first clause resolves with each of the others, and the results clash in `D`; but what they
resolve to is no clause of the closure. -/
theorem crossing_not_closed :
    let c : Clause := ⟨[⟨false, "B"⟩, ⟨false, "D"⟩], ["(not B) A", "(not A) (not D)"], 1⟩
    let d : Clause := ⟨[⟨true, "A"⟩, ⟨true, "C"⟩, ⟨true, "D"⟩], ["(not B) A", "B C D"], 1⟩
    let r : Clause := ⟨[⟨false, "B"⟩, ⟨true, "A"⟩, ⟨true, "C"⟩], [c.name, d.name], 0⟩
    c ∈ (closure crossing).toList ∧ d ∈ (closure crossing).toList ∧ r ∈ resolve c d
      ∧ r.isEmpty = false ∧ (closure crossing).known.contains r = false := by decide

variable {cs : List Clause}

theorem contains_of_mem_resolve {k q r : Clause}
    (hk : (KnowledgeBase.ofList cs).clauses.contains k = true) (hq : q ∈ (closure cs).toList)
    (hr : r ∈ resolve k q) (hne : r.isEmpty = false) :
    (closure cs).known.contains r = true := by
  rw [ClauseSet.contains_iff_mem] at hk ⊢
  rcases mem_closure_of_mem_resolve hk (ClauseSet.mem_of_mem_toList hq) hr with hrep | hmem
  · rw [isEmpty_of_mem_contradictions hrep] at hne
    exact absurd hne (by simp)
  · exact hmem

section Sets

variable {a b r : Clause} {l : Literal}

theorem Clause.toSet_eq_empty : a.toSet = ∅ ↔ a.isEmpty = true := by
  rw [Clause.isEmpty_iff, Set.eq_empty_iff_forall_notMem, List.eq_nil_iff_forall_not_mem]
  rfl

theorem toSet_of_mem_resolve (ha : NormalForm a.literals) (hb : NormalForm b.literals)
    (hl : l ∈ a.literals) (hn : l.negate ∈ b.literals)
    (honce : ∀ k ∈ a.literals, k.negate ∈ b.literals → k = l) (hr : r ∈ resolve a b) :
    r.toSet = resolventOn l a.toSet b.toSet := by
  ext m
  exact ha.mem_resolvent_of_once hb hl hn honce hr

end Sets

section Once

variable (honce : ∀ k ∈ (KnowledgeBase.ofList cs).toList, ∀ c ∈ (closure cs).toList,
  (clashes k c).length ≤ 1)
include honce

theorem toSet_of_mem_resolve_kb {k q r : Clause} {l : Literal}
    (hk : k ∈ (KnowledgeBase.ofList cs).toList) (hq : q ∈ (closure cs).toList)
    (hl : l ∈ k.literals) (hn : l.negate ∈ q.literals) (hr : r ∈ resolve k q) :
    r.toSet = resolventOn l k.toSet q.toSet :=
  toSet_of_mem_resolve (KnowledgeBase.normalForm_of_mem hk) (normalForm_of_mem_closure hq) hl hn
    (eq_of_length_clashes_le_one (honce k hk q hq) hl hn) hr

theorem inputDerives_of_mem_closure {c : Clause} (hc : c ∈ (closure cs).toList) :
    InputDerives (KnowledgeBase.ofList cs).toList c.toSet := by
  refine closure_induction (P := fun ls => InputDerives _ {l | l ∈ ls}) (fun k hk => .given hk) ?_ hc
  intro k hk q hq hderives r hr _
  obtain ⟨l, hl, hn⟩ := exists_clash_of_mem_resolve hr
  have hset : InputDerives _ (resolventOn l k.toSet q.toSet) := .resolve hk hl hderives hn
  rwa [← toSet_of_mem_resolve_kb honce hk hq hl hn hr] at hset

theorem exists_mem_closure_of_inputDerives {s : Set Literal}
    (hs : InputDerives (KnowledgeBase.ofList cs).toList s) :
    s = ∅ ∨ ∃ c ∈ (closure cs).toList, c.toSet = s := by
  induction hs using InputDerives.induction with
  | given k hk => exact .inr ⟨k, mem_closure_of_mem_kb hk, rfl⟩
  | resolve k l s hk hl _ hn ih =>
    rcases ih with rfl | ⟨q, hq, rfl⟩
    · exact absurd hn (Set.notMem_empty _)
    · obtain ⟨r, hr⟩ := exists_mem_resolve hl hn
      rw [← toSet_of_mem_resolve_kb honce hk hq hl hn hr]
      rcases mem_closure_of_mem_resolve (ClauseSet.mem_of_mem_toList hk)
        (ClauseSet.mem_of_mem_toList hq) hr with hrep | hmem
      · exact .inl (Clause.toSet_eq_empty.mpr (isEmpty_of_mem_contradictions hrep))
      · obtain ⟨d, hd, hls⟩ := ClauseSet.mem_iff.mp hmem
        exact .inr ⟨d, hd, by rw [Clause.toSet, hls, Clause.toSet]⟩

theorem singleClash_kb : SingleClash (KnowledgeBase.ofList cs).toList where
  once := by
    intro k hk b hb l hl m hm hln hmn
    rcases exists_mem_closure_of_inputDerives honce hb with rfl | ⟨q, hq, rfl⟩
    · exact absurd hln (Set.notMem_empty _)
    · exact eq_of_length_clashes_le_one (honce k hk q hq) hm hmn l hl hln

theorem contains_of_mem_resolve_of_once {c d r : Clause} (hc : c ∈ (closure cs).toList)
    (hd : d ∈ (closure cs).toList) (hr : r ∈ resolve c d) (hne : r.isEmpty = false) :
    (closure cs).known.contains r = true := by
  have hsingle := singleClash_kb honce
  have hcset := inputDerives_of_mem_closure honce hc
  have hdset := inputDerives_of_mem_closure honce hd
  obtain ⟨l, hl, hn⟩ := exists_clash_of_mem_resolve hr
  have hrset : InputDerives (KnowledgeBase.ofList cs).toList r.toSet := by
    rw [toSet_of_mem_resolve (normalForm_of_mem_closure hc) (normalForm_of_mem_closure hd) hl hn
      (fun m hm hmn => hsingle.eq_of_clashes hcset hdset hm hl hmn hn) hr]
    exact hsingle.inputDerives_resolvent hcset hdset hl hn
  rw [ClauseSet.contains_iff_mem]
  rcases exists_mem_closure_of_inputDerives honce hrset with hempty | ⟨e, he, heq⟩
  · rw [Clause.toSet_eq_empty, hne] at hempty
    exact absurd hempty (by simp)
  · have hls : e.literals = r.literals :=
      (normalForm_of_mem_closure he).ext (normalForm_of_mem_resolve hr) fun m => Set.ext_iff.mp heq m
    exact hls ▸ ClauseSet.mem_of_mem_toList he

end Once

/-- Every resolvent of two clauses of the closure that is not empty is in the closure, if one of
the two belongs to the knowledge base, or if no clause of the knowledge base clashes more than once
with one of the closure. -/
theorem closure_closed_unless_derived (cs : List Clause) (c d : Clause)
    (hc : c ∈ (closure cs).toList) (hd : d ∈ (closure cs).toList)
    (h : (KnowledgeBase.ofList cs).clauses.contains c = true
      ∨ (KnowledgeBase.ofList cs).clauses.contains d = true
      ∨ ∀ k ∈ (KnowledgeBase.ofList cs).toList, ∀ e ∈ (closure cs).toList,
        (clashes k e).length ≤ 1) :
    ∀ r ∈ resolve c d, r.isEmpty = false → (closure cs).known.contains r = true := by
  intro r hr hne
  rcases h with hkc | hkd | honce
  · exact contains_of_mem_resolve hkc hd hr hne
  · obtain ⟨s, hs, heq⟩ := exists_mem_resolve_swap hr
    have hne' : s.isEmpty = false := by rwa [Clause.isEmpty, heq]
    have hmem := contains_of_mem_resolve hkd hc hs hne'
    rwa [ClauseSet.contains_iff_mem, heq, ← ClauseSet.contains_iff_mem] at hmem
  · exact contains_of_mem_resolve_of_once honce hc hd hr hne

/-- In a ladder of four implications nothing clashes twice. From `A` to `C` and from `C` to `E` are
both derived, and the closure holds what they resolve to. -/
theorem closure_closed_unless_derived_ladder :
    let cs : List Clause := [⟨[⟨false, "A"⟩, ⟨true, "B"⟩], [], 0⟩,
      ⟨[⟨false, "B"⟩, ⟨true, "C"⟩], [], 0⟩, ⟨[⟨false, "C"⟩, ⟨true, "D"⟩], [], 0⟩,
      ⟨[⟨false, "D"⟩, ⟨true, "E"⟩], [], 0⟩]
    let c : Clause := ⟨[⟨false, "A"⟩, ⟨true, "C"⟩], ["(not A) B", "(not B) C"], 1⟩
    let d : Clause := ⟨[⟨false, "C"⟩, ⟨true, "E"⟩], ["(not C) D", "(not D) E"], 1⟩
    c ∈ (closure cs).toList ∧ d ∈ (closure cs).toList
      ∧ (∀ k ∈ (KnowledgeBase.ofList cs).toList, ∀ e ∈ (closure cs).toList,
        (clashes k e).length ≤ 1)
      ∧ ∀ r ∈ resolve c d, r.isEmpty = false → (closure cs).known.contains r = true := by
  intro cs c d
  have hc : c ∈ (closure cs).toList := by decide
  have hd : d ∈ (closure cs).toList := by decide
  have honce : ∀ k ∈ (KnowledgeBase.ofList cs).toList, ∀ e ∈ (closure cs).toList,
      (clashes k e).length ≤ 1 := by decide
  exact ⟨hc, hd, honce, closure_closed_unless_derived cs c d hc hd (.inr (.inr honce))⟩

end Resolution
