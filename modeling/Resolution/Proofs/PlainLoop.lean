import Resolution.History
import Resolution.Proofs.KnowledgeBases
import Resolution.Proofs.Termination

/-!
# The closure is the plain loop

`closure` runs its opening round outside the loop and lets the loop go on with the second round and
one round less. When the stop condition does not hold of the knowledge base itself, this is the
loop started on the knowledge base with the first round, whatever the limit: the same rounds, with
the same contradictions, and the same known set.
-/

namespace Resolution

theorem closure_rounds_known {cs : List Clause} {stop : StopCondition} (limit : Option ℤ)
    (h : stop (KnowledgeBase.ofList cs).clauses (KnowledgeBase.ofList cs).dropped.length = false) :
    let kb := KnowledgeBase.ofList cs
    let run := saturate kb.toList kb.clauses limit stop 1 kb.dropped.length
    (closure cs limit stop).kb = kb ∧ (closure cs limit stop).rounds = run.rounds
      ∧ (closure cs limit stop).known = run.known := by
  intro kb run
  have hrun : run = saturate kb.toList kb.clauses limit stop 1 kb.dropped.length := rfl
  rw [saturate_eq, if_neg (by simpa using h : ¬ stop kb.clauses kb.dropped.length = true)] at hrun
  rw [hrun, closure]
  dsimp only
  split_ifs with hlimit hb
  · exact ⟨rfl, rfl, rfl⟩
  · exact ⟨rfl, rfl, rfl⟩
  · refine ⟨rfl, ?_, rfl⟩
    simp [Closure.rounds, kb]

/-- With a stop condition that does not hold at first, the closure is what saturation makes of the
knowledge base in one run from the first round, with the same history and the same empty clauses
reported in the same order: those dropped on the way to the knowledge base, then those derived. -/
theorem closure_eq_plain_loop (cs : List Clause) (limit : Option ℤ) (stop : StopCondition)
    (h : stop (ClauseSet.ofList (KnowledgeBase.ofList cs).toList)
      (KnowledgeBase.ofList cs).dropped.length = false) :
    let kb := KnowledgeBase.ofList cs
    let run := saturate kb.toList (ClauseSet.ofList kb.toList) limit stop 1 kb.dropped.length
    (closure cs limit stop).toList = run.known.toList
      ∧ (closure cs limit stop).history = run.history
      ∧ (closure cs limit stop).empties = kb.dropped ++ run.contradictions := by
  intro kb run
  have hrun : run = saturate kb.toList kb.clauses limit stop 1 kb.dropped.length := by
    rw [← kb.ofList_toList]
  rw [KnowledgeBase.ofList_toList] at h
  obtain ⟨hkb, hrounds, hknown⟩ := closure_rounds_known limit h
  rw [← hrun] at hrounds hknown
  refine ⟨?_, ?_, ?_⟩
  · rw [Closure.toList, hknown]
  · rw [Closure.history, hrounds, Run.history]
  · rw [Closure.empties, Closure.contradictions, hkb, hrounds, Run.contradictions]

/-- The chain has three clauses, so a condition on five of them does not hold at first. -/
theorem closure_eq_plain_loop_chain :
    let stop : StopCondition := fun known _ => 5 ≤ known.size
    let kb := KnowledgeBase.ofList chain
    let run := saturate kb.toList (ClauseSet.ofList kb.toList) (some 3) stop 1 kb.dropped.length
    stop (ClauseSet.ofList kb.toList) kb.dropped.length = false
      ∧ (closure chain (some 3) stop).toList = run.known.toList
      ∧ (closure chain (some 3) stop).history = run.history
      ∧ (closure chain (some 3) stop).empties = kb.dropped ++ run.contradictions :=
  ⟨by decide, closure_eq_plain_loop chain (some 3) _ (by decide)⟩

end Resolution
