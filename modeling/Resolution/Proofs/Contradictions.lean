import Resolution.Proofs.CommonResolvent
import Resolution.Proofs.Endings

/-!
# Contradictions read off the closure

What ends a run at its fixpoint is a round that resolves every clause of the knowledge base with
every clause of the closure, as nothing is added any more. So a contradiction was reported in the
run iff some pair of these has an empty resolvent (`mem_contradictions_of_fixpoint`). Taken on any
clash, a resolvent of two normal forms loses the others as well, and what is left is empty iff the
one clause consists of the negations of the other's literals. Of the empty resolvents nothing is
kept, but for this the clauses that they come from are enough.
-/

namespace Resolution

section Opposites

variable {a b r : Clause}

theorem Literal.negate_involutive : Function.Involutive Literal.negate :=
  Literal.negate_negate

/-- Normal forms do not repeat a literal, so one is made of the negations of the other's literals
as soon as it has these for members. -/
theorem NormalForm.perm_map_negate_iff (ha : NormalForm a.literals) (hb : NormalForm b.literals) :
    b.literals.Perm (a.literals.map Literal.negate)
      ↔ ∀ l, l ∈ b.literals ↔ l.negate ∈ a.literals := by
  have hnodup : (a.literals.map Literal.negate).Nodup :=
    ha.increasing.nodup.map Literal.negate_involutive.injective
  rw [List.perm_ext_iff_of_nodup hb.increasing.nodup hnodup]
  simp only [List.mem_map_of_involutive Literal.negate_involutive]

theorem eq_of_mem_resolve_of_isEmpty (hr : r ∈ resolve a b) (hempty : r.isEmpty = true) :
    r = ⟨[], [a.name, b.name], 0⟩ := by
  obtain ⟨i, j, l, -, -, rfl⟩ := mem_resolve.mp hr
  exact congrArg (Clause.mk · _ _) (Clause.isEmpty_iff.mp hempty)

/-- Two normal forms have an empty resolvent iff the one is made of the negations of the other's
literals, and then it is the only one. -/
theorem NormalForm.mem_resolve_and_isEmpty_iff (ha : NormalForm a.literals)
    (hb : NormalForm b.literals) (hne : a.literals ≠ []) :
    r ∈ resolve a b ∧ r.isEmpty = true
      ↔ b.literals.Perm (a.literals.map Literal.negate) ∧ r = ⟨[], [a.name, b.name], 0⟩ := by
  rw [ha.perm_map_negate_iff hb]
  constructor
  · rintro ⟨hr, hempty⟩
    exact ⟨(ha.isEmpty_resolvent_iff hb hr).mp hempty, eq_of_mem_resolve_of_isEmpty hr hempty⟩
  · rintro ⟨hopposite, rfl⟩
    obtain ⟨l, hl⟩ := List.exists_mem_of_ne_nil _ hne
    have hn : l.negate ∈ b.literals := (hopposite _).mpr (by rwa [Literal.negate_negate])
    obtain ⟨r, hr⟩ := exists_mem_resolve hl hn
    have hempty := (ha.isEmpty_resolvent_iff hb hr).mpr hopposite
    exact ⟨eq_of_mem_resolve_of_isEmpty hr hempty ▸ hr, rfl⟩

end Opposites

section Fixpoints

variable {cs : List Clause} {limit : Option ℤ} {stop : StopCondition} {m : ℤ} {r : Clause}

theorem beyond_never (s : ClauseSet) : StopCondition.never.beyond s = .never := by
  funext known reported
  exact Bool.and_false _

theorem exists_ending_closure (cs : List Clause) : ∃ m, (closure cs).ending = .fixpoint m := by
  have hrun := run_closure cs none .never
  dsimp only at hrun
  rw [beyond_never] at hrun
  obtain ⟨n, -, -, hfix⟩ := exists_saturate_eq_stage (KnowledgeBase.ofList cs).toList
    (KnowledgeBase.ofList cs).clauses 1 (KnowledgeBase.ofList cs).dropped.length
  exact ⟨1 + n, congrArg Run.ending (hrun.trans hfix)⟩

theorem exists_rounds_of_fixpoint (h : (closure cs limit stop).ending = .fixpoint m) :
    let kb := KnowledgeBase.ofList cs
    ∃ n, (closure cs limit stop).known = stage kb.toList 1 kb.clauses n
      ∧ (closure cs limit stop).rounds = roundsUpTo kb.toList 1 kb.clauses (n + 1) := by
  intro kb
  obtain ⟨n, -, hend⟩ := exists_saturate_endsAfter kb.toList kb.clauses limit
    (stop.beyond kb.clauses) 1 kb.dropped.length
  rw [← run_closure] at hend
  have hknown : (closure cs limit stop).run.known = stage kb.toList 1 kb.clauses n := hend.known_eq
  exact ⟨n, hknown, hend.rounds_eq_of_fixpoint h⟩

/-- The last round of a run to the fixpoint reports what it meets between the knowledge base and the
closure, and no other round can have met more. -/
theorem mem_contradictions_of_fixpoint (h : (closure cs limit stop).ending = .fixpoint m) :
    r ∈ (closure cs limit stop).contradictions ↔ ∃ k ∈ (KnowledgeBase.ofList cs).toList,
      ∃ q ∈ (closure cs limit stop).toList, r ∈ resolve k q ∧ r.isEmpty = true := by
  obtain ⟨n, hknown, hrounds⟩ := exists_rounds_of_fixpoint h
  exact mem_contradictions_of_rounds hknown hrounds

end Fixpoints

/-- Without limit and stop condition a run ends at its fixpoint. Wherever a run does, it has
reported a contradiction iff the closure holds the exact negation of a clause of the knowledge base,
and what it has reported is one empty clause, by the names of the two, for each such pair. -/
theorem contradictions_ne_nil_iff_negations (cs : List Clause) :
    (∃ m, (closure cs).ending = .fixpoint m)
      ∧ ∀ limit stop m, (closure cs limit stop).ending = .fixpoint m →
        let kb := KnowledgeBase.ofList cs
        let c := closure cs limit stop
        (c.contradictions ≠ [] ↔ ∃ k ∈ kb.toList, ∃ d ∈ c.toList,
            d.literals.Perm (k.literals.map Literal.negate))
          ∧ ∀ r, r ∈ c.contradictions ↔ ∃ k ∈ kb.toList, ∃ d ∈ c.toList,
            d.literals.Perm (k.literals.map Literal.negate) ∧ r = ⟨[], [k.name, d.name], 0⟩ := by
  refine ⟨exists_ending_closure cs, fun limit stop m h => ?_⟩
  intro kb c
  have hmem : ∀ r, r ∈ c.contradictions ↔ ∃ k ∈ kb.toList, ∃ d ∈ c.toList,
      d.literals.Perm (k.literals.map Literal.negate) ∧ r = ⟨[], [k.name, d.name], 0⟩ := by
    intro r
    rw [mem_contradictions_of_fixpoint h]
    refine exists_congr fun k => and_congr_right fun hk => exists_congr fun d =>
      and_congr_right fun hd => ?_
    exact (KnowledgeBase.normalForm_of_mem hk).mem_resolve_and_isEmpty_iff
      (normalForm_of_mem_closure hd)
      (Clause.isEmpty_eq_false_iff.mp (KnowledgeBase.isEmpty_of_mem hk))
  refine ⟨⟨fun hne => ?_, fun ⟨k, hk, d, hd, hopposite⟩ => ?_⟩, hmem⟩
  · obtain ⟨r, hr⟩ := List.exists_mem_of_ne_nil _ hne
    obtain ⟨k, hk, d, hd, hopposite, -⟩ := (hmem r).mp hr
    exact ⟨k, hk, d, hd, hopposite⟩
  · exact List.ne_nil_of_mem ((hmem _).mpr ⟨k, hk, d, hd, hopposite, rfl⟩)

/-- `A`, `¬A ∨ B` and `¬B`: no clause given is the negation of another, but `B` and `¬A` are
derived, and each of them meets its negation. -/
theorem contradictions_ne_nil_iff_negations_units :
    let cs : List Clause := [⟨[⟨true, "A"⟩], [], 0⟩, ⟨[⟨false, "A"⟩, ⟨true, "B"⟩], [], 0⟩,
      ⟨[⟨false, "B"⟩], [], 0⟩]
    let c := closure cs (some 2) fun known _ => 6 ≤ known.size
    c.ending = .fixpoint 2 ∧ c.contradictions ≠ []
      ∧ ∃ k ∈ (KnowledgeBase.ofList cs).toList, ∃ d ∈ c.toList,
        d.literals.Perm (k.literals.map Literal.negate) := by
  intro cs c
  have hending : c.ending = .fixpoint 2 := by decide
  have hne : c.contradictions ≠ [] := by decide
  obtain ⟨-, hrun⟩ := contradictions_ne_nil_iff_negations cs
  exact ⟨hending, hne, (hrun (some 2) _ 2 hending).1.mp hne⟩

/-- The clauses of the chain go on to resolve with what they derive, and none is negated. -/
example : (closure chain).contradictions = [] := by decide

end Resolution
