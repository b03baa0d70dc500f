import Mathlib.Order.Bounds.Basic
import Resolution.Proofs.Termination

/-!
# Saturation computes the least closed set

After `n` rounds the literals known are those that at most `n` steps of resolution derive
(`mem_stage_iff`). Where a run finds nothing new the known set is closed, so it holds whatever can
be derived at all, and it is the least closed set above what was known at first.
-/

namespace Resolution

/-- What clauses of `kb` resolve to with members of `S` is empty or in `S` again. -/
def ResolutionClosed (kb : List Clause) (S : Set (List Literal)) : Prop :=
  ∀ k ∈ kb, ∀ q : Clause, q.literals ∈ S → ∀ r ∈ resolve k q, r.isEmpty = true ∨ r.literals ∈ S

section Derivations

variable {kb : List Clause} {first : ℤ} {known s : ClauseSet} {ls : List Literal}

theorem mem_stage_iff {n : ℕ} :
    ls ∈ stage kb first known n ↔ ∃ m ≤ n, Derivation kb known.toList m ls := by
  induction n generalizing ls with
  | zero =>
    constructor
    · intro h
      obtain ⟨c, hc, rfl⟩ := ClauseSet.mem_iff.mp h
      exact ⟨0, le_rfl, .given hc⟩
    · rintro ⟨m, hm, h⟩
      cases h with
      | given hc => exact ClauseSet.mem_of_mem_toList hc
      | resolve => omega
  | succ n ih =>
    rw [stage_succ, roundAt, mem_known_perform]
    constructor
    · rintro (h | ⟨k, hk, q, hq, r, hr, hne, rfl⟩)
      · obtain ⟨m, hm, h⟩ := ih.mp h
        exact ⟨m, by omega, h⟩
      · obtain ⟨m, hm, h⟩ := ih.mp (ClauseSet.mem_of_mem_toList hq)
        exact ⟨m + 1, by omega, .resolve h hk hr hne⟩
    · rintro ⟨m, hm, h⟩
      cases h with
      | given hc => exact .inl (ih.mpr ⟨0, by omega, .given hc⟩)
      | resolve h hk hr hne =>
        obtain ⟨q, hq, rfl⟩ := ClauseSet.mem_iff.mp (ih.mpr ⟨_, by omega, h⟩)
        exact .inr ⟨_, hk, q, hq, _, hr, hne, rfl⟩

theorem resolutionClosed_of_exhausted (h : newResolvents kb s = []) :
    ResolutionClosed kb {ls | ls ∈ s} := by
  intro k hk q hq r hr
  obtain ⟨c, hc, heq⟩ := ClauseSet.mem_iff.mp hq
  rw [← resolve_congr_right heq] at hr
  exact newResolvents_eq_nil.mp h k hk c hc r hr

theorem ResolutionClosed.mem_of_derivation {S : Set (List Literal)} (hS : ResolutionClosed kb S)
    {cs : List Clause} (hcs : ∀ c ∈ cs, c.literals ∈ S) {n : ℕ} (h : Derivation kb cs n ls) :
    ls ∈ S := by
  induction h with
  | given hc => exact hcs _ hc
  | resolve _ hk hr hne ih =>
    rcases hS _ hk _ ih _ hr with he | hmem
    · rw [hne] at he
      exact absurd he (by simp)
    · exact hmem

end Derivations

/-- Without limit and stop condition, saturation ends at a fixpoint, and the literals known there
are the least set that holds those known at first and is closed under resolution with `kb`. They
are those that can be derived, a further round would find nothing new, and the clauses known at
first stand unchanged at the front. -/
theorem saturate_isLeast (kb : List Clause) (known : ClauseSet) (first : ℤ) :
    let run := saturate kb known none .never first
    (∃ last, run.ending = .fixpoint last)
      ∧ IsLeast {S : Set (List Literal) |
          (∀ c ∈ known.toList, c.literals ∈ S) ∧ ResolutionClosed kb S} {ls | ls ∈ run.known}
      ∧ (∀ ls, ls ∈ run.known ↔ Derivable kb known.toList ls)
      ∧ newResolvents kb run.known = [] ∧ known.toList <+: run.known.toList := by
  intro run
  obtain ⟨n, -, hnew, hrun⟩ := exists_saturate_eq_stage kb known first 0
  have hknown : run.known = stage kb first known n := congrArg Run.known hrun
  rw [← hknown] at hnew
  have hclosed := resolutionClosed_of_exhausted hnew
  have hfront : known.toList <+: run.known.toList := by
    rw [hknown]
    exact stage_isPrefix kb first known (Nat.zero_le n)
  have hgiven : ∀ c ∈ known.toList, c.literals ∈ run.known := fun c hc =>
    ClauseSet.mem_of_mem_toList (hfront.subset hc)
  have hderive : ∀ ls, ls ∈ run.known → ∃ m, Derivation kb known.toList m ls := fun ls hls => by
    rw [hknown] at hls
    obtain ⟨m, -, h⟩ := mem_stage_iff.mp hls
    exact ⟨m, h⟩
  refine ⟨⟨_, congrArg Run.ending hrun⟩, ⟨⟨hgiven, hclosed⟩, fun S hS ls hls => ?_⟩,
    fun ls => ⟨hderive ls, ?_⟩, hnew, hfront⟩
  · obtain ⟨m, h⟩ := hderive ls hls
    exact hS.2.mem_of_derivation hS.1 h
  · rintro ⟨m, h⟩
    exact hclosed.mem_of_derivation hgiven h

end Resolution
