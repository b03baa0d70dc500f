import Mathlib.Data.Set.Basic
import Resolution.Proofs.Closures

/-!
# The closure covers input resolution

Resolution on sets of literals keeps what clashes, and the closure strips it, so the two do not
derive the same clauses. But the closure derives enough: together with the empty clauses that are
reported, it holds a subset of whatever input resolution derives. The induction needs of the
closure no more than that it is `Saturated`, and takes one step at a time (`Saturated.step`): the
clause that covers the known parent loses its half of the pivot by a resolution of its own, or has
no such half, or may keep it because the other parent has lost the pivot already.
-/

namespace Resolution

/-- Normal forms, with those of the clauses `ks` among them and all that resolving with these
leads to, be it empty. -/
structure Saturated (ks : List Clause) (S : Set (List Literal)) : Prop where
  normal : ∀ ls ∈ S, NormalForm ls
  given : ∀ c ∈ ks, c.standardize.literals ∈ S
  resolvent : ∀ c ∈ ks, ∀ q : Clause, q.literals ∈ S →
    ∀ r ∈ resolve c.standardize q, r.literals ∈ S

namespace Saturated

variable {ks : List Clause} {S : Set (List Literal)} {c : Clause} {l : Literal}
  {ls ms : List Literal}

theorem map_standardize (h : Saturated ks S) : Saturated (ks.map Clause.standardize) S where
  normal := h.normal
  given := by
    intro c hc
    obtain ⟨d, hd, rfl⟩ := List.mem_map.mp hc
    rw [Clause.standardize_of_normalForm (Clause.normalForm_standardize d)]
    exact h.given d hd
  resolvent := by
    intro c hc q hq r hr
    obtain ⟨d, hd, rfl⟩ := List.mem_map.mp hc
    rw [Clause.standardize_of_normalForm (Clause.normalForm_standardize d)] at hr
    exact h.resolvent d hd q hq r hr

theorem step (h : Saturated ks S) (hc : c ∈ ks) (hl : l ∈ c.literals) (hms : ms ∈ S)
    (hsub : ms ⊆ ls) : ∃ ns ∈ S, ns ⊆ c.literals.filter (· ≠ l) ++ ls.filter (· ≠ l.negate) := by
  by_cases hn : l.negate ∈ ms
  · by_cases hl' : l ∈ c.standardize.literals
    · obtain ⟨r, hr⟩ := exists_mem_resolve (b := { literals := ms }) hl' hn
      refine ⟨r.literals, h.resolvent c hc _ hms r hr, fun m hm => ?_⟩
      obtain ⟨hm, hnc, hnms⟩ :=
        ((Clause.normalForm_standardize c).mem_resolvent (h.normal ms hms) hr).mp hm
      have hne : m ≠ l := fun heq => hnms (heq ▸ hn)
      have hne' : m ≠ l.negate := fun heq => hnc (by rwa [heq, Literal.negate_negate])
      rcases hm with hm | hm
      · have hmc : m ∈ c.literals := (Clause.mem_standardize.mp hm).1
        exact List.mem_append_left _ (by simp [hmc, hne])
      · exact List.mem_append_right _ (by simp [hsub hm, hne'])
    · -- the pivot went together with its negation, which the clause as written still has
      have hnc : l.negate ∈ c.literals := by
        by_contra hnc
        exact hl' (Clause.mem_standardize.mpr ⟨hl, hnc⟩)
      refine ⟨ms, hms, fun m hm => ?_⟩
      by_cases heq : m = l.negate
      · exact List.mem_append_left _ (by simp [heq, hnc, Literal.negate_ne_self])
      · exact List.mem_append_right _ (by simp [hsub hm, heq])
  · refine ⟨ms, hms, fun m hm => List.mem_append_right _ ?_⟩
    have hne : m ≠ l.negate := fun heq => hn (heq ▸ hm)
    simp [hsub hm, hne]

theorem exists_subset (h : Saturated ks S) (hls : InputDerivable ks ls) : ∃ ms ∈ S, ms ⊆ ls := by
  induction hls with
  | @given c hc =>
    exact ⟨_, h.given c hc, fun m hm => (Clause.mem_standardize.mp hm).1⟩
  | @resolve c l ls hc hl _ _ ih =>
    obtain ⟨ms, hms, hsub⟩ := ih
    exact h.step hc hl hms hsub

end Saturated

/-- The clauses a run meets: those its closure keeps, and the empty ones it reports. -/
def Closure.met (c : Closure) : List Clause :=
  c.toList ++ c.empties

section Met

variable {cs : List Clause} {c : Clause}

theorem isEmpty_of_mem_empties (h : c ∈ (closure cs).empties) : c.isEmpty = true := by
  rcases List.mem_append.mp h with hc | hc
  · rw [kb_closure, KnowledgeBase.dropped_ofList] at hc
    exact (List.mem_filter.mp hc).2
  · exact isEmpty_of_mem_contradictions hc

theorem normalForm_of_mem_met (h : c ∈ (closure cs).met) : NormalForm c.literals := by
  rcases List.mem_append.mp h with hc | hc
  · exact normalForm_of_mem_closure hc
  · rw [Clause.isEmpty_iff.mp (isEmpty_of_mem_empties hc)]
    exact ⟨.nil, by simp⟩

theorem exists_mem_met_standardize (hc : c ∈ cs) :
    ∃ d ∈ (closure cs).met, d.literals = c.standardize.literals := by
  rcases hempty : c.standardize.isEmpty
  · have hmem : c.standardize.literals ∈ (KnowledgeBase.ofList cs).clauses :=
      KnowledgeBase.mem_clauses_ofList.mpr ⟨c, hc, hempty, rfl⟩
    obtain ⟨k, hk, heq⟩ := ClauseSet.mem_iff.mp hmem
    exact ⟨k, List.mem_append_left _ (mem_closure_of_mem_kb hk), heq⟩
  · have hmem : c.standardize ∈ (closure cs).kb.dropped := by
      rw [kb_closure, KnowledgeBase.dropped_ofList]
      exact List.mem_filter.mpr ⟨List.mem_map_of_mem hc, hempty⟩
    exact ⟨_, List.mem_append_right _ (List.mem_append_left _ hmem), rfl⟩

theorem exists_mem_met_resolvent {d q r : Clause} (hc : c ∈ cs) (hd : d ∈ (closure cs).met)
    (heq : d.literals = q.literals) (hr : r ∈ resolve c.standardize q) :
    ∃ e ∈ (closure cs).met, e.literals = r.literals := by
  obtain ⟨l, hl, hn⟩ := exists_clash_of_mem_resolve hr
  rw [← heq] at hn
  rcases List.mem_append.mp hd with hd | hd
  · have hempty : c.standardize.isEmpty = false :=
      Clause.isEmpty_eq_false_iff.mpr (List.ne_nil_of_mem hl)
    have hk : c.standardize.literals ∈ (KnowledgeBase.ofList cs).clauses :=
      KnowledgeBase.mem_clauses_ofList.mpr ⟨c, hc, hempty, rfl⟩
    have hq : q.literals ∈ (closure cs).known := heq ▸ ClauseSet.mem_of_mem_toList hd
    rcases mem_closure_of_mem_resolve hk hq hr with hrep | hkept
    · exact ⟨r, List.mem_append_right _ (List.mem_append_right _ hrep), rfl⟩
    · obtain ⟨e, he, heq⟩ := ClauseSet.mem_iff.mp hkept
      exact ⟨e, List.mem_append_left _ he, heq⟩
  · -- an empty clause clashes with nothing
    rw [Clause.isEmpty_iff.mp (isEmpty_of_mem_empties hd)] at hn
    exact absurd hn List.not_mem_nil

theorem saturated_met (cs : List Clause) :
    Saturated cs {ls | ∃ c ∈ (closure cs).met, c.literals = ls} where
  normal := by
    rintro ls ⟨c, hc, rfl⟩
    exact normalForm_of_mem_met hc
  given := fun c hc => exists_mem_met_standardize hc
  resolvent := by
    rintro c hc q ⟨d, hd, heq⟩ r hr
    exact exists_mem_met_resolvent hc hd heq hr

end Met

/-- Of whatever input resolution derives from the clauses as written, all the literals of some
clause of the closure are part, unless an empty clause has been reported. -/
theorem exists_subset_of_inputDerivable (cs : List Clause) (ls : List Literal)
    (h : InputDerivable cs ls) :
    (∃ c ∈ (closure cs).toList, ∀ l ∈ c.literals, l ∈ ls) ∨ (closure cs).empties ≠ [] := by
  obtain ⟨_, ⟨c, hc, rfl⟩, hsub⟩ := (saturated_met cs).exists_subset h
  rcases List.mem_append.mp hc with hc | hc
  · exact .inl ⟨c, hc, fun l hl => hsub hl⟩
  · exact .inr (List.ne_nil_of_mem hc)

/-- `A` or not `A` or `B` is kept as `B`. Resolving it as written on `A` leads to a clause with `B`
in it, and so does resolving the result on `C`. -/
theorem exists_subset_of_inputDerivable_stripped :
    let cs : List Clause := [⟨[⟨true, "A"⟩, ⟨false, "A"⟩, ⟨true, "B"⟩], [], 0⟩,
      ⟨[⟨false, "A"⟩, ⟨false, "C"⟩], [], 0⟩, ⟨[⟨true, "C"⟩, ⟨true, "D"⟩], [], 0⟩]
    let ls : List Literal := [⟨true, "D"⟩, ⟨false, "A"⟩, ⟨true, "B"⟩]
    InputDerivable cs ls
      ∧ ((∃ c ∈ (closure cs).toList, ∀ l ∈ c.literals, l ∈ ls) ∨ (closure cs).empties ≠ []) := by
  intro cs ls
  have hfirst : InputDerivable cs [⟨false, "A"⟩, ⟨true, "B"⟩, ⟨false, "C"⟩] :=
    .resolve (c := cs[0]) (l := ⟨true, "A"⟩) (by decide) (by decide) (.given (c := cs[1]) (by decide))
      (by decide)
  have h : InputDerivable cs ls :=
    .resolve (c := cs[2]) (l := ⟨true, "C"⟩) (by decide) (by decide) hfirst (by decide)
  exact ⟨h, exists_subset_of_inputDerivable cs ls h⟩

end Resolution
