import Resolution.Proofs.Closures

/-!
# Runs cut short by a limit

From a stage on at which nothing new can be resolved, the stages stay what they are
(`stage_of_exhausted`). So without a stop condition a run within `m` rounds ends with the stage
after `m` rounds, whether or not it came that far (`known_saturate_some`), and a run without a limit
with what all late stages are (`known_saturate_none`). As each round stamps what it adds with its
own number, the clauses of an early stage are the clauses of a late one with low steps
(`filter_stage`).
-/

namespace Resolution

section Exhausted

variable {kb : List Clause} {first number : ℤ} {known s : ClauseSet} {m n reported : ℕ}

theorem known_perform_of_exhausted (h : newResolvents kb s = []) :
    (Round.perform kb number s).known = s := by
  rw [Round.perform, h, absorb]

theorem stage_of_exhausted (h : newResolvents kb (stage kb first known n) = []) (hle : n ≤ m) :
    stage kb first known m = stage kb first known n := by
  induction m, hle using Nat.le_induction with
  | base => rfl
  | succ m _ ih => rw [stage_succ, roundAt, ih, known_perform_of_exhausted h]

theorem known_saturate_some (limit : ℤ) :
    (saturate kb known (some limit) .never first reported).known
      = stage kb first known limit.toNat := by
  obtain ⟨n, -, hend⟩ := exists_saturate_endsAfter kb known (some limit) .never first reported
  generalize saturate kb known (some limit) .never first reported = run at hend ⊢
  cases hend with
  | roundLimit hn => rw [hn, roundBudget]
  | stopped _ hs => exact absurd hs (by simp [StopCondition.never])
  | fixpoint hn _ hnew => exact (stage_of_exhausted hnew hn.le).symm

theorem known_saturate_none : ∃ n, ∀ m ≥ n,
    (saturate kb known none .never first reported).known = stage kb first known m := by
  obtain ⟨n, -, hnew, hrun⟩ := exists_saturate_eq_stage kb known first reported
  exact ⟨n, fun m hm => by rw [hrun, stage_of_exhausted hnew hm]⟩

/-- A run that a limit does not stop before `m` rounds ends with a stage after at least `m`
rounds, be it the same as an earlier one. -/
theorem exists_known_saturate_eq (limit : Option ℤ) (hm : ∀ l ∈ limit, m ≤ l.toNat) :
    ∃ n ≥ m, (saturate kb known limit .never first reported).known = stage kb first known n := by
  cases limit with
  | some l => exact ⟨l.toNat, hm l rfl, known_saturate_some l⟩
  | none =>
    obtain ⟨n, hn⟩ := known_saturate_none
    exact ⟨max m n, le_max_left m n, hn _ (le_max_right m n)⟩

end Exhausted

section Closures

variable {cs : List Clause} {limit : Option ℤ} {m : ℕ}

theorem known_closure (cs : List Clause) (limit : Option ℤ) : (closure cs limit).known
    = (saturate (KnowledgeBase.ofList cs).toList (KnowledgeBase.ofList cs).clauses limit .never 1
        (KnowledgeBase.ofList cs).dropped.length).known :=
  (closure_rounds_known limit rfl).2.2

theorem known_closure_some (cs : List Clause) (limit : ℤ) : (closure cs (some limit)).known
    = stage (KnowledgeBase.ofList cs).toList 1 (KnowledgeBase.ofList cs).clauses limit.toNat := by
  rw [known_closure, known_saturate_some]

theorem exists_known_closure_eq (cs : List Clause) (hm : ∀ l ∈ limit, m ≤ l.toNat) :
    ∃ n ≥ m, (closure cs limit).known
      = stage (KnowledgeBase.ofList cs).toList 1 (KnowledgeBase.ofList cs).clauses n := by
  rw [known_closure]
  exact exists_known_saturate_eq limit hm

end Closures

section Steps

variable {kb : List Clause} {first : ℤ} {known : ClauseSet} {m n : ℕ} {c : Clause}

variable (hlow : ∀ d ∈ known.toList, d.step < first)
include hlow

theorem step_lt_of_mem_stage (h : c ∈ (stage kb first known n).toList) : c.step < first + n := by
  rcases mem_stage_cases h with hc | ⟨i, hi, hc⟩
  · have := hlow c hc
    omega
  · have := step_of_mem_added hc
    omega

theorem filter_stage (hle : m ≤ n) :
    (stage kb first known n).toList.filter (fun c => c.step < first + m)
      = (stage kb first known m).toList := by
  induction n, hle using Nat.le_induction with
  | base => exact List.filter_eq_self.mpr fun c hc => by simpa using step_lt_of_mem_stage hlow hc
  | succ n hle ih =>
    -- a round after the first `m` adds nothing that the filter keeps
    have hadded : (roundAt kb first known n).added.filter (fun c => c.step < first + m) = [] := by
      refine List.filter_eq_nil_iff.mpr fun c hc => ?_
      have := step_of_mem_added hc
      simp only [decide_eq_true_eq]
      omega
    rw [toList_stage_succ, List.filter_append, ih, hadded, List.append_nil]

theorem pairwise_step_stage (hknown : known.toList.Pairwise fun c d => c.step ≤ d.step) :
    (stage kb first known n).toList.Pairwise fun c d => c.step ≤ d.step := by
  induction n with
  | zero => exact hknown
  | succ n ih =>
    rw [toList_stage_succ, List.pairwise_append]
    refine ⟨ih, List.pairwise_of_forall_mem_list fun c hc d hd => ?_, fun c hc d hd => ?_⟩
    · rw [step_of_mem_added hc, step_of_mem_added hd]
    · rw [step_of_mem_added hd]
      exact (step_lt_of_mem_stage hlow hc).le

end Steps

/-- The closure within `m` rounds is an initial part of the closure within more, or within no
limit. Of clauses at step 0, it holds those of the whole closure that have at most step `m`, in the
same order, and steps never decrease along a closure. -/
theorem closure_limit_isPrefix (cs : List Clause) (m : ℤ) (limit : Option ℤ) (hm : 0 ≤ m)
    (hle : ∀ n ∈ limit, m ≤ n) :
    (closure cs (some m)).toList <+: (closure cs limit).toList
      ∧ ((∀ c ∈ cs, c.step = 0) →
        (closure cs (some m)).toList = (closure cs).toList.filter (fun c => c.step ≤ m)
          ∧ (closure cs limit).toList.Pairwise fun c d => c.step ≤ d.step) := by
  have hmn : ∀ l ∈ limit, m.toNat ≤ l.toNat := fun l hl => Int.toNat_le_toNat (hle l hl)
  obtain ⟨n, hn, hknown⟩ := exists_known_closure_eq cs hmn
  rw [Closure.toList, Closure.toList, known_closure_some, hknown]
  refine ⟨stage_isPrefix _ 1 _ hn, fun hzero => ?_⟩
  have hkb : ∀ c ∈ (KnowledgeBase.ofList cs).toList, c.step = 0 := fun c hc =>
    KnowledgeBase.step_eq_zero_of_mem hzero hc
  have hlow : ∀ c ∈ (KnowledgeBase.ofList cs).clauses.toList, c.step < 1 := fun c hc => by
    rw [hkb c hc]
    exact one_pos
  refine ⟨?_, pairwise_step_stage hlow ?_⟩
  · have hnone : ∀ l ∈ (none : Option ℤ), m.toNat ≤ l.toNat := by simp
    obtain ⟨k, hk, hwhole⟩ := exists_known_closure_eq cs hnone
    rw [Closure.toList, hwhole, ← filter_stage hlow hk]
    refine List.filter_congr fun c _ => decide_eq_decide.mpr ?_
    omega
  · exact List.pairwise_of_forall_mem_list fun c hc d hd => by rw [hkb c hc, hkb d hd]

/-- One round of the chain, beside two: the third clause that can be derived comes only with the
second round. -/
theorem closure_limit_isPrefix_chain :
    (0 : ℤ) ≤ 1 ∧ (∀ n ∈ some (2 : ℤ), 1 ≤ n) ∧ (∀ c ∈ chain, c.step = 0)
      ∧ (closure chain (some 1)).toList <+: (closure chain (some 2)).toList
      ∧ (closure chain (some 1)).toList = (closure chain).toList.filter (fun c => c.step ≤ 1)
      ∧ (closure chain (some 2)).toList.Pairwise fun c d => c.step ≤ d.step := by
  have hzero : ∀ c ∈ chain, c.step = 0 := by decide
  have hle : ∀ n ∈ some (2 : ℤ), 1 ≤ n := by simp
  obtain ⟨hpre, hsteps⟩ := closure_limit_isPrefix chain 1 (some 2) (by decide) hle
  exact ⟨by decide, hle, hzero, hpre, hsteps hzero⟩

end Resolution
