import Mathlib.Data.Nat.Init
import Resolution.Proofs.Rounds
import Resolution.Saturation

/-!
# Stages of a run

`stage` is the known set after so many rounds, with nothing to end the run, and `roundAt` is the
round that follows. A run is an initial part of this sequence (`exists_endsAfter`): it goes on for
as long as the stop condition does not hold and rounds find something, and what ends it is the
limit, the stop condition, or one more round that finds nothing.
-/

namespace Resolution

section Stage

variable (kb : List Clause) (first : ℤ) (known : ClauseSet)

/-- The known set after `n` rounds, the first of them numbered `first`. -/
def stage : ℕ → ClauseSet
  | 0 => known
  | n + 1 => (Round.perform kb (first + n) (stage n)).known

/-- The round that follows `n` others. -/
def roundAt (n : ℕ) : Round :=
  Round.perform kb (first + n) (stage kb first known n)

/-- The first `n` rounds. -/
def roundsUpTo (n : ℕ) : List Round :=
  (List.range n).map (roundAt kb first known)

/-- The clauses that the first `n` rounds add. -/
def addedUpTo (n : ℕ) : List Clause :=
  (roundsUpTo kb first known n).flatMap fun r => r.added

/-- The contradictions reported when `n` rounds are over, after `reported` others. -/
def reportedAfter (reported n : ℕ) : ℕ :=
  reported + ((roundsUpTo kb first known n).flatMap Round.contradictions).length

@[simp]
theorem stage_zero : stage kb first known 0 = known := rfl

theorem stage_succ (n : ℕ) :
    stage kb first known (n + 1) = (roundAt kb first known n).known := rfl

theorem number_succ (first : ℤ) (n : ℕ) : first + (n + 1 : ℕ) = first + 1 + n := by
  omega

/-- The stages after the first round are those of the run that starts with what it leaves. -/
theorem stage_succ_left (n : ℕ) : stage kb first known (n + 1)
    = stage kb (first + 1) (Round.perform kb first known).known n := by
  induction n with
  | zero => simp [stage]
  | succ n ih =>
    rw [stage, ih, stage, number_succ]

theorem stage_add (m n : ℕ) : stage kb first known (m + n)
    = stage kb (first + m) (stage kb first known m) n := by
  induction n with
  | zero => rfl
  | succ n ih =>
    rw [← Nat.add_assoc, stage, ih, stage, Int.natCast_add, ← Int.add_assoc]

theorem roundAt_zero : roundAt kb first known 0 = Round.perform kb first known := by
  simp [roundAt]

theorem roundAt_succ_left (n : ℕ) : roundAt kb first known (n + 1)
    = roundAt kb (first + 1) (Round.perform kb first known).known n := by
  rw [roundAt, stage_succ_left, roundAt, number_succ]

theorem roundsUpTo_succ (n : ℕ) : roundsUpTo kb first known (n + 1)
    = roundsUpTo kb first known n ++ [roundAt kb first known n] := by
  simp [roundsUpTo, List.range_succ]

theorem roundsUpTo_succ_left (n : ℕ) : roundsUpTo kb first known (n + 1)
    = Round.perform kb first known
      :: roundsUpTo kb (first + 1) (Round.perform kb first known).known n := by
  simp only [roundsUpTo, List.range_succ_eq_map, List.map_cons, List.map_map, roundAt_zero,
    List.cons.injEq, true_and]
  exact List.map_congr_left fun i _ => roundAt_succ_left kb first known i

@[simp]
theorem length_roundsUpTo (n : ℕ) : (roundsUpTo kb first known n).length = n := by
  simp [roundsUpTo]

theorem eq_roundAt_of_getElem? {m i : ℕ} {r : Round}
    (h : (roundsUpTo kb first known m)[i]? = some r) : r = roundAt kb first known i := by
  simp only [roundsUpTo, List.getElem?_map, Option.map_eq_some_iff, List.getElem?_eq_some_iff,
    List.getElem_range] at h
  obtain ⟨j, ⟨-, rfl⟩, rfl⟩ := h
  rfl

theorem mem_roundsUpTo {n : ℕ} {r : Round} :
    r ∈ roundsUpTo kb first known n ↔ ∃ i < n, r = roundAt kb first known i := by
  simp [roundsUpTo, eq_comm]

@[simp]
theorem reportedAfter_zero (reported : ℕ) : reportedAfter kb first known reported 0 = reported := by
  simp [reportedAfter, roundsUpTo]

theorem reportedAfter_succ_left (reported n : ℕ) : reportedAfter kb first known reported (n + 1)
    = reportedAfter kb (first + 1) (Round.perform kb first known).known
        (reported + (Round.perform kb first known).contradictions.length) n := by
  rw [reportedAfter, reportedAfter, roundsUpTo_succ_left, List.flatMap_cons, List.length_append]
  omega

theorem addedUpTo_succ (n : ℕ) : addedUpTo kb first known (n + 1)
    = addedUpTo kb first known n ++ (roundAt kb first known n).added := by
  simp [addedUpTo, roundsUpTo_succ]

theorem toList_stage_succ (n : ℕ) : (stage kb first known (n + 1)).toList
    = (stage kb first known n).toList ++ (roundAt kb first known n).added :=
  toList_known_perform

theorem toList_stage (n : ℕ) :
    (stage kb first known n).toList = known.toList ++ addedUpTo kb first known n := by
  induction n with
  | zero => simp [addedUpTo, roundsUpTo]
  | succ n ih => rw [toList_stage_succ, ih, addedUpTo_succ, List.append_assoc]

theorem size_stage (n : ℕ) :
    (stage kb first known n).size = known.size + (addedUpTo kb first known n).length := by
  rw [ClauseSet.size, toList_stage, List.length_append, ClauseSet.size]

theorem stage_isPrefix_succ (n : ℕ) :
    (stage kb first known n).toList <+: (stage kb first known (n + 1)).toList :=
  ⟨_, (toList_stage_succ kb first known n).symm⟩

theorem stage_isPrefix {m n : ℕ} (h : m ≤ n) :
    (stage kb first known m).toList <+: (stage kb first known n).toList := by
  induction n, h using Nat.le_induction with
  | base => exact List.prefix_rfl
  | succ n _ ih => exact ih.trans (stage_isPrefix_succ kb first known n)

variable {kb first known} {n : ℕ} {c : Clause}

theorem mem_addedUpTo :
    c ∈ addedUpTo kb first known n ↔ ∃ i < n, c ∈ (roundAt kb first known i).added := by
  simp [addedUpTo, roundsUpTo]

/-- A clause of a stage was known at first, or some earlier round added it. -/
theorem mem_stage_cases (h : c ∈ (stage kb first known n).toList) :
    c ∈ known.toList ∨ ∃ i < n, c ∈ (roundAt kb first known i).added := by
  rwa [toList_stage, List.mem_append, mem_addedUpTo] at h

theorem mem_stage_succ_of_mem_added (h : c ∈ (roundAt kb first known n).added) :
    c ∈ (stage kb first known (n + 1)).toList := by
  rw [toList_stage_succ]
  exact List.mem_append_right _ h

theorem step_of_mem_added (h : c ∈ (roundAt kb first known n).added) : c.step = first + n :=
  (mem_added_perform h).2.1

end Stage

section Ending

variable (kb : List Clause) (stop : StopCondition)

/-- The run goes on past `n` rounds: the stop condition does not hold, and the next round finds
something. -/
def Continues (first : ℤ) (reported : ℕ) (known : ClauseSet) (n : ℕ) : Prop :=
  stop (stage kb first known n) (reportedAfter kb first known reported n) = false ∧
    newResolvents kb (stage kb first known n) ≠ []

/-- The run ends after `n` rounds that found something. -/
inductive EndsAfter (first : ℤ) (reported : ℕ) (known : ClauseSet) (budget n : ℕ) : Run → Prop
  | roundLimit : n = budget →
      EndsAfter first reported known budget n
        ⟨stage kb first known n, roundsUpTo kb first known n, .roundLimit⟩
  | stopped : n < budget →
      stop (stage kb first known n) (reportedAfter kb first known reported n) = true →
      EndsAfter first reported known budget n
        ⟨stage kb first known n, roundsUpTo kb first known n, .stopped (first + n)⟩
  | fixpoint : n < budget →
      stop (stage kb first known n) (reportedAfter kb first known reported n) = false →
      newResolvents kb (stage kb first known n) = [] →
      EndsAfter first reported known budget n
        ⟨stage kb first known n, roundsUpTo kb first known (n + 1), .fixpoint (first + n)⟩

variable {kb stop} {first : ℤ} {reported : ℕ} {known : ClauseSet} {budget n : ℕ} {run : Run}

theorem continues_succ : Continues kb stop first reported known (n + 1)
    ↔ Continues kb stop (first + 1)
        (reported + (Round.perform kb first known).contradictions.length)
        (Round.perform kb first known).known n := by
  rw [Continues, stage_succ_left, reportedAfter_succ_left, Continues]

theorem EndsAfter.preceded
    (h : EndsAfter kb stop (first + 1)
      (reported + (Round.perform kb first known).contradictions.length)
      (Round.perform kb first known).known budget n run) :
    EndsAfter kb stop first reported known (budget + 1) (n + 1)
      (run.preceded (Round.perform kb first known)) := by
  cases h with
  | roundLimit h =>
    rw [Run.preceded, ← stage_succ_left, ← roundsUpTo_succ_left]
    exact .roundLimit (by omega)
  | stopped h hs =>
    rw [← stage_succ_left, ← reportedAfter_succ_left] at hs
    rw [Run.preceded, ← stage_succ_left, ← roundsUpTo_succ_left, ← number_succ]
    exact .stopped (by omega) hs
  | fixpoint h hs he =>
    rw [← stage_succ_left, ← reportedAfter_succ_left] at hs
    rw [← stage_succ_left] at he
    rw [Run.preceded, ← stage_succ_left, ← roundsUpTo_succ_left, ← number_succ]
    exact .fixpoint (by omega) hs he

theorem EndsAfter.eq_budget (h : EndsAfter kb stop first reported known budget n run)
    (hlimit : run.ending = .roundLimit) : n = budget := by
  cases h with
  | roundLimit h => exact h
  | stopped => simp at hlimit
  | fixpoint => simp at hlimit

theorem EndsAfter.rounds_eq_of_fixpoint {m : ℤ}
    (h : EndsAfter kb stop first reported known budget n run) (hfix : run.ending = .fixpoint m) :
    run.rounds = roundsUpTo kb first known (n + 1) := by
  cases h with
  | roundLimit => simp at hfix
  | stopped => simp at hfix
  | fixpoint => rfl

theorem EndsAfter.known_eq (h : EndsAfter kb stop first reported known budget n run) :
    run.known = stage kb first known n := by
  cases h <;> rfl

/-- All rounds of a run begin with a stage that its known set holds. -/
theorem EndsAfter.exists_rounds_eq (h : EndsAfter kb stop first reported known budget n run) :
    ∃ m ≤ n + 1, run.rounds = roundsUpTo kb first known m := by
  cases h with
  | roundLimit => exact ⟨n, by omega, rfl⟩
  | stopped => exact ⟨n, by omega, rfl⟩
  | fixpoint => exact ⟨n + 1, le_rfl, rfl⟩

/-- Every run ends after some number of rounds that found something, one of the three ways. -/
theorem exists_endsAfter : ∀ (budget : ℕ) (first : ℤ) (reported : ℕ) (known : ClauseSet),
    ∃ n, (∀ i < n, Continues kb stop first reported known i)
      ∧ EndsAfter kb stop first reported known budget n
        (saturateWithin kb stop budget first reported known)
  | 0, first, reported, known => ⟨0, by simp, .roundLimit rfl⟩
  | budget + 1, first, reported, known => by
    unfold saturateWithin
    dsimp only
    split_ifs with hs hb
    · have h := @EndsAfter.stopped kb stop first reported known (budget + 1) 0 (by omega)
        (by simpa using hs)
      exact ⟨0, by simp, by simpa [roundsUpTo] using h⟩
    · have he : newResolvents kb known = [] := batch_perform_eq_nil.mp (List.isEmpty_iff.mp hb)
      have h := @EndsAfter.fixpoint kb stop first reported known (budget + 1) 0 (by omega)
        (by simpa using hs) he
      exact ⟨0, by simp, by simpa [roundsUpTo, roundAt_zero] using h⟩
    · obtain ⟨n, hn, hend⟩ := exists_endsAfter budget (first + 1)
        (reported + (Round.perform kb first known).contradictions.length)
        (Round.perform kb first known).known
      refine ⟨n + 1, fun i hi => ?_, hend.preceded⟩
      rcases i with _ | i
      · refine ⟨by simpa using hs, fun he => hb ?_⟩
        exact List.isEmpty_iff.mpr (batch_perform_eq_nil.mpr he)
      · exact continues_succ.mpr (hn i (by omega))

theorem exists_saturate_endsAfter (kb : List Clause) (known : ClauseSet) (limit : Option ℤ)
    (stop : StopCondition) (first : ℤ) (reported : ℕ) :
    ∃ n, (∀ i < n, Continues kb stop first reported known i)
      ∧ EndsAfter kb stop first reported known (roundBudget kb known limit) n
        (saturate kb known limit stop first reported) :=
  exists_endsAfter (roundBudget kb known limit) first reported known

end Ending

end Resolution
