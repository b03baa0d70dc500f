import Resolution.Proofs.KnownSets
import Resolution.Proofs.NormalResolvents
import Resolution.Proofs.PlainLoop

/-!
# What a closure holds

Whatever ends its run, a closure is a stage of the knowledge base, and its rounds are those that
lead there and at most one more (`exists_closure_eq_stages`). So a property of the knowledge base
that resolving with it keeps is one of all the closure holds (`closure_induction`), and every
contradiction comes from a clause that is held. What is held are distinct normal forms over the
literals of the knowledge base, with the knowledge base in front (`grown_toList_closure`).

Without limit and stop condition, what a clause of the knowledge base resolves to with one of the
closure is held too or is reported (`mem_closure_of_mem_resolve`).
-/

namespace Resolution

section Limited

variable {cs : List Clause} {limit : Option ℤ} {stop : StopCondition} {c r : Clause}

theorem exists_closure_eq_stages (cs : List Clause) (limit : Option ℤ) (stop : StopCondition) :
    let kb := KnowledgeBase.ofList cs
    ∃ n, (closure cs limit stop).known = stage kb.toList 1 kb.clauses n
      ∧ ∃ m ≤ n + 1, (closure cs limit stop).rounds = roundsUpTo kb.toList 1 kb.clauses m := by
  intro kb
  unfold closure
  dsimp only
  split_ifs with hlimit hb
  · exact ⟨0, rfl, 0, by omega, rfl⟩
  · exact ⟨0, rfl, 1, le_rfl, (roundsUpTo_succ_left kb.toList 1 kb.clauses 0).symm⟩
  · obtain ⟨n, -, hend⟩ := exists_saturate_endsAfter kb.toList
      (Round.perform kb.toList 1 kb.clauses).known (limit.map (· - 1)) stop 2
      (kb.dropped.length + (Round.perform kb.toList 1 kb.clauses).contradictions.length)
    obtain ⟨m, hm, hrounds⟩ := hend.exists_rounds_eq
    refine ⟨n + 1, hend.known_eq.trans (stage_succ_left _ 1 _ n).symm, m + 1, by omega, ?_⟩
    rw [roundsUpTo_succ_left]
    simpa [Closure.rounds, kb] using hrounds

/-- Whatever ends its run, a closure holds some stage of it. -/
theorem exists_closure_eq_stage (cs : List Clause) (limit : Option ℤ) (stop : StopCondition) :
    ∃ n, (closure cs limit stop).known
      = stage (KnowledgeBase.ofList cs).toList 1 (KnowledgeBase.ofList cs).clauses n := by
  obtain ⟨n, hknown, -⟩ := exists_closure_eq_stages cs limit stop
  exact ⟨n, hknown⟩

@[simp]
theorem kb_closure : (closure cs limit stop).kb = KnowledgeBase.ofList cs := by
  unfold closure
  dsimp only
  split_ifs <;> rfl

theorem mem_closure_of_mem_kb (h : c ∈ (KnowledgeBase.ofList cs).toList) :
    c ∈ (closure cs limit stop).toList := by
  obtain ⟨n, hknown⟩ := exists_closure_eq_stage cs limit stop
  rw [Closure.toList, hknown]
  exact (stage_isPrefix _ 1 _ (Nat.zero_le n)).subset h

theorem closure_induction {P : List Literal → Prop}
    (given : ∀ k ∈ (KnowledgeBase.ofList cs).toList, P k.literals)
    (resolvent : ∀ k ∈ (KnowledgeBase.ofList cs).toList, ∀ q ∈ (closure cs limit stop).toList,
      P q.literals → ∀ r ∈ resolve k q, r.isEmpty = false → P r.literals)
    (hc : c ∈ (closure cs limit stop).toList) : P c.literals := by
  obtain ⟨n, hknown⟩ := exists_closure_eq_stage cs limit stop
  have hstage : ∀ i ≤ n, ∀ ls ∈ stage (KnowledgeBase.ofList cs).toList 1
      (KnowledgeBase.ofList cs).clauses i, P ls := by
    intro i
    induction i with
    | zero =>
      intro _ ls hls
      obtain ⟨k, hk, rfl⟩ := ClauseSet.mem_iff.mp hls
      exact given k hk
    | succ i ih =>
      intro hi ls hls
      rcases mem_known_perform.mp hls with hls | ⟨k, hk, q, hq, r, hr, hne, rfl⟩
      · exact ih (by omega) ls hls
      · -- the stage that holds the parent is an initial part of the closure
        have hq' : q ∈ (closure cs limit stop).toList := by
          rw [Closure.toList, hknown]
          exact (stage_isPrefix _ 1 _ (by omega)).subset hq
        exact resolvent k hk q hq' (ih (by omega) _ (ClauseSet.mem_of_mem_toList hq)) r hr hne
  refine hstage n le_rfl _ (ClauseSet.mem_of_mem_toList ?_)
  rwa [Closure.toList, hknown] at hc

theorem exists_parents_of_mem_contradictions
    (h : r ∈ (closure cs limit stop).contradictions) :
    ∃ k ∈ (KnowledgeBase.ofList cs).toList, ∃ q ∈ (closure cs limit stop).toList,
      r ∈ resolve k q ∧ r.isEmpty = true := by
  obtain ⟨n, hknown, m, hm, hrounds⟩ := exists_closure_eq_stages cs limit stop
  rw [Closure.contradictions, hrounds] at h
  obtain ⟨round, hround, hr⟩ := List.mem_flatMap.mp h
  obtain ⟨i, hi, rfl⟩ := (mem_roundsUpTo _ _ _).mp hround
  obtain ⟨hres, hempty⟩ := List.mem_filter.mp hr
  obtain ⟨k, hk, q, hq, hmem⟩ := mem_resolvents.mp hres
  refine ⟨k, hk, q, ?_, hmem, hempty⟩
  rw [Closure.toList, hknown]
  exact (stage_isPrefix _ 1 _ (by omega)).subset hq

/-- Where one more round follows the last stage, it reports every contradiction between the
knowledge base and the closure. -/
theorem mem_contradictions_of_rounds {n : ℕ}
    (hknown : (closure cs limit stop).known
      = stage (KnowledgeBase.ofList cs).toList 1 (KnowledgeBase.ofList cs).clauses n)
    (hrounds : (closure cs limit stop).rounds
      = roundsUpTo (KnowledgeBase.ofList cs).toList 1 (KnowledgeBase.ofList cs).clauses (n + 1)) :
    r ∈ (closure cs limit stop).contradictions ↔ ∃ k ∈ (KnowledgeBase.ofList cs).toList,
      ∃ q ∈ (closure cs limit stop).toList, r ∈ resolve k q ∧ r.isEmpty = true := by
  refine ⟨exists_parents_of_mem_contradictions, fun ⟨k, hk, q, hq, hr, hempty⟩ => ?_⟩
  rw [Closure.toList, hknown] at hq
  rw [Closure.contradictions, hrounds, roundsUpTo_succ, List.flatMap_append, List.flatMap_singleton]
  refine List.mem_append_right _ (List.mem_filter.mpr ⟨?_, hempty⟩)
  exact mem_resolvents.mpr ⟨k, hk, q, hq, hr⟩

theorem isEmpty_of_mem_contradictions (h : r ∈ (closure cs limit stop).contradictions) :
    r.isEmpty = true := by
  obtain ⟨k, -, q, -, -, hempty⟩ := exists_parents_of_mem_contradictions h
  exact hempty

theorem grown_toList_closure (cs : List Clause) (limit : Option ℤ) (stop : StopCondition) :
    Grown (KnowledgeBase.ofList cs).toList (closure cs limit stop).toList := by
  obtain ⟨n, hknown⟩ := exists_closure_eq_stage cs limit stop
  rw [Closure.toList, hknown]
  exact (KnowledgeBase.grown cs).stage 1 n

theorem normalForm_of_mem_closure (h : c ∈ (closure cs limit stop).toList) :
    NormalForm c.literals :=
  ((grown_toList_closure cs limit stop).normalWithin c h).normal

theorem literals_ne_nil_of_mem_closure (h : c ∈ (closure cs limit stop).toList) :
    c.literals ≠ [] :=
  Clause.isEmpty_eq_false_iff.mp ((grown_toList_closure cs limit stop).normalWithin c h).nonempty

/-- Whatever list of clauses it is made from, and whatever ends its run, a closure is grown from its
knowledge base, and so is what each of its rounds leaves. -/
theorem closure_grown (cs : List Clause) (limit : Option ℤ) (stop : StopCondition) :
    let kb := KnowledgeBase.ofList cs
    Grown kb.toList (closure cs limit stop).toList
      ∧ ∀ round ∈ (closure cs limit stop).rounds, Grown kb.toList round.known.toList := by
  intro kb
  refine ⟨grown_toList_closure cs limit stop, fun round hround => ?_⟩
  obtain ⟨-, -, m, -, hrounds⟩ := exists_closure_eq_stages cs limit stop
  rw [hrounds] at hround
  obtain ⟨i, -, rfl⟩ := (mem_roundsUpTo _ _ _).mp hround
  exact (KnowledgeBase.grown cs).stage 1 (i + 1)

end Limited

section Unlimited

variable {cs : List Clause} {k q r : Clause}

/-- Without limit and stop condition, the last round is one that finds nothing new. -/
theorem exists_closure_eq_fixpoint (cs : List Clause) :
    let kb := KnowledgeBase.ofList cs
    ∃ n, newResolvents kb.toList (stage kb.toList 1 kb.clauses n) = []
      ∧ (closure cs).known = stage kb.toList 1 kb.clauses n
      ∧ (closure cs).rounds = roundsUpTo kb.toList 1 kb.clauses (n + 1) := by
  intro kb
  obtain ⟨-, hrounds, hknown⟩ :=
    closure_rounds_known none (rfl : StopCondition.never kb.clauses kb.dropped.length = false)
  obtain ⟨n, -, hnew, hrun⟩ := exists_saturate_eq_stage kb.toList kb.clauses 1 kb.dropped.length
  exact ⟨n, hnew, hknown.trans (congrArg Run.known hrun), hrounds.trans (congrArg Run.rounds hrun)⟩

theorem newResolvents_closure (cs : List Clause) :
    newResolvents (KnowledgeBase.ofList cs).toList (closure cs).known = [] := by
  obtain ⟨n, hnew, hknown, -⟩ := exists_closure_eq_fixpoint cs
  rwa [hknown]

theorem mem_contradictions_closure : r ∈ (closure cs).contradictions ↔
    ∃ k ∈ (KnowledgeBase.ofList cs).toList, ∃ q ∈ (closure cs).toList,
      r ∈ resolve k q ∧ r.isEmpty = true := by
  obtain ⟨n, -, hknown, hrounds⟩ := exists_closure_eq_fixpoint cs
  exact mem_contradictions_of_rounds hknown hrounds

theorem mem_closure_of_mem_resolve (hk : k.literals ∈ (KnowledgeBase.ofList cs).clauses)
    (hq : q.literals ∈ (closure cs).known) (hr : r ∈ resolve k q) :
    r ∈ (closure cs).contradictions ∨ r.literals ∈ (closure cs).known := by
  obtain ⟨k', hk', hkeq⟩ := ClauseSet.mem_iff.mp hk
  obtain ⟨q', hq', hqeq⟩ := ClauseSet.mem_iff.mp hq
  rw [← resolve_congr_left hkeq, ← resolve_congr_right hqeq] at hr
  rcases newResolvents_eq_nil.mp (newResolvents_closure cs) k' hk' q' hq' r hr with hempty | hmem
  · exact .inl (mem_contradictions_closure.mpr ⟨k', hk', q', hq', hr, hempty⟩)
  · exact .inr hmem

end Unlimited

end Resolution
