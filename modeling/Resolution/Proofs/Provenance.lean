import Resolution.Proofs.Closures
import Resolution.Proofs.LeastClosure

/-!
# Steps are shortest derivations

What a round adds was out of reach of the stage before it, so the round that adds a clause is the
least number of steps that derive its literals (`isLeast_of_mem_added`). The known parent of such a
clause was itself added one round earlier: had it been known before that, its resolvent would have
been too.
-/

namespace Resolution

section Lists

variable {α : Type*} {xs before after : List α} {c : α}

theorem prefix_of_not_mem (h : xs <+: before ++ c :: after) (hc : c ∉ xs) : xs <+: before := by
  rcases List.prefix_or_prefix_of_prefix h (List.prefix_append before (c :: after)) with hp | hp
  · exact hp
  · obtain ⟨t, rfl⟩ := hp
    rw [List.prefix_append_right_inj] at h
    rcases t with _ | ⟨d, t⟩
    · simp
    · obtain ⟨rfl, -⟩ := List.cons_prefix_cons.mp h
      simp at hc

end Lists

section Stamps

variable {kb : List Clause} {first : ℤ} {known : ClauseSet} {n i : ℕ} {c : Clause}
  {ls : List Literal}

theorem isLeast_of_mem_of_not_mem (h : ls ∈ stage kb first known (n + 1))
    (hnot : ls ∉ stage kb first known n) :
    IsLeast {m | Derivation kb known.toList m ls} (n + 1) := by
  have hlow : ∀ m, Derivation kb known.toList m ls → n + 1 ≤ m := fun m hm => by
    by_contra hlt
    exact hnot (mem_stage_iff.mpr ⟨m, by omega, hm⟩)
  obtain ⟨m, hm, hderive⟩ := mem_stage_iff.mp h
  have heq : m = n + 1 := le_antisymm hm (hlow m hderive)
  exact ⟨heq ▸ hderive, hlow⟩

theorem isLeast_of_mem_known (h : c ∈ known.toList) :
    IsLeast {m | Derivation kb known.toList m c.literals} 0 :=
  ⟨.given h, fun _ _ => Nat.zero_le _⟩

theorem isLeast_of_mem_added (h : c ∈ (roundAt kb first known i).added) :
    IsLeast {m | Derivation kb known.toList m c.literals} (i + 1) :=
  isLeast_of_mem_of_not_mem (ClauseSet.mem_of_mem_toList (mem_stage_succ_of_mem_added h))
    (mem_added_perform h).1

/-- The known parent of an added clause was out of reach until the round before. -/
theorem exists_parents_of_mem_added (h : c ∈ (roundAt kb first known i).added) :
    ∃ k ∈ kb, ∃ q ∈ (stage kb first known i).toList, c.source = [k.name, q.name]
      ∧ (∃ r ∈ resolve k q, r.literals = c.literals)
      ∧ IsLeast {m | Derivation kb known.toList m q.literals} i := by
  obtain ⟨hnew, -, hne, k, hk, q, hq, r, hr, hls, hsource⟩ := mem_added_perform h
  refine ⟨k, hk, q, hq, hsource.trans (source_of_mem_resolve hr), ⟨r, hr, hls.symm⟩, ?_⟩
  rcases i with _ | i
  · exact isLeast_of_mem_known hq
  · -- a parent known one round earlier would have made its resolvent known by now
    refine isLeast_of_mem_of_not_mem (ClauseSet.mem_of_mem_toList hq) fun hmem => hnew ?_
    obtain ⟨p, hp, heq⟩ := ClauseSet.mem_iff.mp hmem
    rw [← resolve_congr_right heq] at hr
    rw [Clause.isEmpty, hls] at hne
    exact mem_known_perform.mpr (.inr ⟨k, hk, p, hp, r, hr, hne, hls.symm⟩)

/-- With the clauses known at first at step 0, every step is the length of a shortest
derivation. -/
theorem isLeast_step_of_mem_stage (hzero : ∀ d ∈ known.toList, d.step = 0)
    (h : c ∈ (stage kb 1 known n).toList) :
    ∃ m : ℕ, c.step = m ∧ IsLeast {m | Derivation kb known.toList m c.literals} m := by
  rcases mem_stage_cases h with hc | ⟨i, -, hc⟩
  · exact ⟨0, by simp [hzero c hc], isLeast_of_mem_known hc⟩
  · refine ⟨i + 1, ?_, isLeast_of_mem_added hc⟩
    rw [step_of_mem_added hc]
    omega

theorem step_eq_zero_iff (hzero : ∀ d ∈ known.toList, d.step = 0)
    (h : c ∈ (stage kb 1 known n).toList) : c.step = 0 ↔ c.literals ∈ known := by
  rcases mem_stage_cases h with hc | ⟨i, -, hc⟩
  · exact iff_of_true (hzero c hc) (ClauseSet.mem_of_mem_toList hc)
  · obtain ⟨hnew, hstep, -⟩ := mem_added_perform hc
    refine iff_of_false (by omega) fun hmem => hnew ?_
    obtain ⟨d, hd, heq⟩ := ClauseSet.mem_iff.mp hmem
    rw [← heq]
    exact ClauseSet.mem_of_mem_toList ((stage_isPrefix kb 1 known (Nat.zero_le i)).subset hd)

end Stamps

/-- Every clause of a closure of clauses at step 0 carries the least number of steps that derive
its literals from the knowledge base. It is 0 exactly for the clauses of the knowledge base. Any
other clause is a resolvent of a clause of the knowledge base and of one that stands before it, one
step less far, and names both as its source. -/
theorem closure_provenance (cs : List Clause) (limit : Option ℤ) (stop : StopCondition)
    (hzero : ∀ c ∈ cs, c.step = 0) :
    let kb := KnowledgeBase.ofList cs
    ∀ before c after, (closure cs limit stop).toList = before ++ c :: after →
      (c.step = 0 ↔ kb.clauses.contains c = true)
        ∧ ∃ n : ℕ, c.step = n ∧ IsLeast {m | Derivation kb.toList kb.toList m c.literals} n
          ∧ (1 ≤ n → ∃ k ∈ kb.toList, ∃ q ∈ before, c.source = [k.name, q.name]
            ∧ q.step = (n : ℤ) - 1 ∧ ∃ r ∈ resolve k q, r.literals = c.literals) := by
  intro kb before c after hlist
  obtain ⟨n, hknown⟩ := exists_closure_eq_stage cs limit stop
  rw [Closure.toList, hknown] at hlist
  have hzero' : ∀ d ∈ kb.clauses.toList, d.step = 0 := fun d hd =>
    KnowledgeBase.step_eq_zero_of_mem hzero hd
  have hc : c ∈ (stage kb.toList 1 kb.clauses n).toList := by
    rw [hlist]
    exact List.mem_append_right _ List.mem_cons_self
  rw [ClauseSet.contains_iff_mem]
  refine ⟨step_eq_zero_iff hzero' hc, ?_⟩
  obtain ⟨m, hm, hleast⟩ := isLeast_step_of_mem_stage hzero' hc
  refine ⟨m, hm, hleast, fun hpos => ?_⟩
  rcases mem_stage_cases hc with hc' | ⟨i, hi, hadded⟩
  · have := hzero' c hc'
    omega
  · obtain ⟨k, hk, q, hq, hsource, hr, hqleast⟩ := exists_parents_of_mem_added hadded
    have hpre : (stage kb.toList 1 kb.clauses i).toList <+: before := by
      refine prefix_of_not_mem (hlist ▸ stage_isPrefix _ _ _ hi.le) fun hmem => ?_
      exact (mem_added_perform hadded).1 (ClauseSet.mem_of_mem_toList hmem)
    obtain ⟨j, hj, hjleast⟩ := isLeast_step_of_mem_stage hzero' hq
    have hji : j = i := hjleast.unique hqleast
    have hmi : m = i + 1 := hleast.unique (isLeast_of_mem_added hadded)
    exact ⟨k, hk, q, hpre.subset hq, hsource, by omega, hr⟩

/-- From the chain, two rounds derive `C`, which stands behind what the first one knows. -/
theorem closure_provenance_chain :
    let kb := KnowledgeBase.ofList chain
    let before := (closure chain (some 1)).toList
    let c : Clause := ⟨[⟨true, "C"⟩], ["A", "(not A) C"], 2⟩
    (∀ d ∈ chain, d.step = 0) ∧ (closure chain).toList = before ++ c :: []
      ∧ (c.step = 0 ↔ kb.clauses.contains c = true)
      ∧ ∃ n : ℕ, c.step = n ∧ IsLeast {m | Derivation kb.toList kb.toList m c.literals} n
        ∧ (1 ≤ n → ∃ k ∈ kb.toList, ∃ q ∈ before, c.source = [k.name, q.name]
          ∧ q.step = (n : ℤ) - 1 ∧ ∃ r ∈ resolve k q, r.literals = c.literals) :=
  ⟨by decide, by decide, closure_provenance chain none .never (by decide) _ _ [] (by decide)⟩

end Resolution
