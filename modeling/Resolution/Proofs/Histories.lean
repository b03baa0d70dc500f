import Resolution.History
import Resolution.Proofs.Endings

/-!
# What a history records

The clauses that the rounds of a run add stand behind the known set it starts from, in the order of
the rounds and each stamped with the number of its own (`filter_addedUpTo`). The history names them
round by round, and the sizes it gives count the initial set and all that has been named so far
(`records_roundsUpTo`). Only the last round of a run can add nothing, and it does exactly if the run
ends at its fixpoint.
-/

namespace Resolution

/-- The history of a run that makes `after` of `before` by rounds that add the lists `added` one
after the other, the first of them numbered `first`. -/
structure Records (first : ℤ) (before after : List Clause) (added : List (List Clause))
    (fixpoint : Prop) (h : History) : Prop where
  isPrefix : before <+: after
  round : ∀ (i : ℕ) (e : HistoryEntry), h[i]? = some e → e.round = first + i
  produced : h.map HistoryEntry.produced = added.map (List.map Clause.name)
  /-- What a round adds is exactly what is stamped with it. -/
  stamped : ∀ (i : ℕ) (cs : List Clause), added[i]? = some cs →
    cs = (after.drop before.length).filter (·.step = first + i)
  /-- The size counts the clauses of `before` and all that has been named so far. -/
  knownSize : ∀ (i : ℕ) (e : HistoryEntry), h[i]? = some e →
    e.knownSize = (before.length + ((h.take (i + 1)).flatMap HistoryEntry.produced).length : ℕ)
  nonempty : ∀ e ∈ h.dropLast, e.produced ≠ []
  last : (∃ e ∈ h.getLast?, e.produced = []) ↔ fixpoint
  flatten : h.flatMap HistoryEntry.produced = (after.drop before.length).map Clause.name

section Rounds

variable {kb : List Clause} {first : ℤ} {known : ClauseSet} {i m : ℕ}

theorem filter_addedUpTo (hi : i < m) :
    (addedUpTo kb first known m).filter (·.step = first + i)
      = (roundAt kb first known i).added := by
  induction m, hi using Nat.le_induction with
  | base =>
    have hbefore : (addedUpTo kb first known i).filter (·.step = first + i) = [] := by
      refine List.filter_eq_nil_iff.mpr fun c hc => ?_
      obtain ⟨j, hj, hc⟩ := mem_addedUpTo.mp hc
      rw [decide_eq_true_eq, step_of_mem_added hc]
      omega
    have hround : (roundAt kb first known i).added.filter (·.step = first + i)
        = (roundAt kb first known i).added :=
      List.filter_eq_self.mpr fun c hc => decide_eq_true (step_of_mem_added hc)
    rw [addedUpTo_succ, List.filter_append, hbefore, hround, List.nil_append]
  | succ m hm ih =>
    have hround : (roundAt kb first known m).added.filter (·.step = first + i) = [] := by
      refine List.filter_eq_nil_iff.mpr fun c hc => ?_
      rw [decide_eq_true_eq, step_of_mem_added hc]
      omega
    rw [addedUpTo_succ, List.filter_append, ih, hround, List.append_nil]

theorem drop_stage (m : ℕ) :
    (stage kb first known m).toList.drop known.toList.length = addedUpTo kb first known m := by
  rw [toList_stage, List.drop_left]

theorem take_roundsUpTo (hi : i ≤ m) :
    (roundsUpTo kb first known m).take i = roundsUpTo kb first known i := by
  rw [roundsUpTo, ← List.map_take, List.take_range, Nat.min_eq_left hi, roundsUpTo]

theorem getElem?_map_roundsUpTo {α : Type*} {f : Round → α} {x : α} :
    ((roundsUpTo kb first known m).map f)[i]? = some x
      ↔ i < m ∧ f (roundAt kb first known i) = x := by
  rw [List.getElem?_map, Option.map_eq_some_iff]
  constructor
  · rintro ⟨r, hr, rfl⟩
    have hi := (List.getElem?_eq_some_iff.mp hr).1
    rw [length_roundsUpTo] at hi
    exact ⟨hi, congrArg f (eq_roundAt_of_getElem? kb first known hr).symm⟩
  · rintro ⟨hi, rfl⟩
    exact ⟨_, by simp [roundsUpTo, hi], rfl⟩

theorem flatMap_produced (rounds : List Round) :
    (rounds.map Round.entry).flatMap HistoryEntry.produced
      = (rounds.flatMap fun r => r.added).map Clause.name := by
  rw [List.flatMap_map, List.map_flatMap]
  rfl

theorem knownSize_entry (hi : i < m) : (roundAt kb first known i).entry.knownSize
    = (known.toList.length + ((((roundsUpTo kb first known m).map Round.entry).take (i + 1)).flatMap
        HistoryEntry.produced).length : ℕ) := by
  rw [← List.map_take, take_roundsUpTo (Nat.succ_le_of_lt hi), flatMap_produced, List.length_map]
  exact congrArg Int.ofNat (size_stage kb first known (i + 1))

/-- The history of a stage at which every round but the last has found something. -/
theorem records_roundsUpTo {fixpoint : Prop}
    (hfound : ∀ i, i + 1 < m → newResolvents kb (stage kb first known i) ≠ [])
    (hlast : (∃ i, i + 1 = m ∧ newResolvents kb (stage kb first known i) = []) ↔ fixpoint) :
    Records first known.toList (stage kb first known m).toList
      ((roundsUpTo kb first known m).map fun r => r.added) fixpoint
      ((roundsUpTo kb first known m).map Round.entry) where
  isPrefix := stage_isPrefix kb first known (Nat.zero_le m)
  round i e he := by
    obtain ⟨-, rfl⟩ := getElem?_map_roundsUpTo.mp he
    rfl
  produced := by
    rw [List.map_map, List.map_map]
    rfl
  stamped i cs hcs := by
    obtain ⟨hi, rfl⟩ := getElem?_map_roundsUpTo.mp hcs
    rw [drop_stage, filter_addedUpTo hi]
  knownSize i e he := by
    obtain ⟨hi, rfl⟩ := getElem?_map_roundsUpTo.mp he
    exact knownSize_entry hi
  nonempty e he := by
    rcases m with _ | m
    · simp [roundsUpTo] at he
    · rw [roundsUpTo_succ, List.map_append, List.map_singleton, List.dropLast_concat] at he
      obtain ⟨r, hr, rfl⟩ := List.mem_map.mp he
      obtain ⟨i, hi, rfl⟩ := (mem_roundsUpTo _ _ _).mp hr
      exact List.map_eq_nil_iff.not.mpr (added_perform_ne_nil (hfound i (by omega)))
  last := by
    rw [← hlast]
    rcases m with _ | m
    · simp [roundsUpTo]
    · have hnil : (roundAt kb first known m).entry.produced = []
          ↔ newResolvents kb (stage kb first known m) = [] := by
        rw [Round.entry, List.map_eq_nil_iff]
        exact added_perform_eq_nil
      rw [roundsUpTo_succ, List.map_append, List.map_singleton, List.getLast?_concat]
      simp [hnil]
  flatten := by
    rw [flatMap_produced, drop_stage]
    rfl

end Rounds

section Runs

variable (kb : List Clause) (known : ClauseSet) (limit : Option ℤ) (stop : StopCondition)
  (first : ℤ) (reported : ℕ)

theorem records_saturate :
    let run := saturate kb known limit stop first reported
    Records first known.toList run.known.toList (run.rounds.map fun r => r.added)
      (∃ n, run.ending = .fixpoint n) run.history := by
  intro run
  obtain ⟨n, hn, hend : EndsAfter kb stop first reported known _ n run⟩ :=
    exists_saturate_endsAfter kb known limit stop first reported
  clear_value run
  have hfound : ∀ i < n, newResolvents kb (stage kb first known i) ≠ [] := fun i hi => (hn i hi).2
  -- no round of a run that is cut short comes after the last one that found something
  have hcut : (∃ i, i + 1 = n ∧ newResolvents kb (stage kb first known i) = []) ↔ False :=
    iff_false_intro fun ⟨i, hi, hnil⟩ => hfound i (by omega) hnil
  cases hend with
  | roundLimit => exact records_roundsUpTo (fun i hi => hfound i (by omega)) (by simpa using hcut)
  | stopped => exact records_roundsUpTo (fun i hi => hfound i (by omega)) (by simpa using hcut)
  | fixpoint _ _ hnil =>
    rw [← stage_of_exhausted hnil n.le_succ]
    refine records_roundsUpTo (fun i hi => hfound i (by omega)) ?_
    simpa using hnil

end Runs

theorem rounds_closure_eq_nil {cs : List Clause} {limit : Option ℤ} {stop : StopCondition} :
    (closure cs limit stop).rounds = [] ↔ ∃ m ∈ limit, m ≤ 0 := by
  have hlimit : limit.any (· ≤ 0) = true ↔ ∃ m ∈ limit, m ≤ 0 := by
    simp [Option.any_eq_true]
  rw [← hlimit, closure]
  dsimp only
  split_ifs with h <;> simp [Closure.rounds, h]

/-- The history of a run, and of a closure, records all its rounds. That of a closure is empty
exactly if no round is allowed. -/
theorem history_records :
    (∀ (kb : List Clause) (known : ClauseSet) (limit : Option ℤ) (stop : StopCondition) (first : ℤ)
        (reported : ℕ),
      let run := saturate kb known limit stop first reported
      Records first known.toList run.known.toList (run.rounds.map fun r => r.added)
        (∃ n, run.ending = .fixpoint n) run.history)
    ∧ ∀ (cs : List Clause) (limit : Option ℤ) (stop : StopCondition),
      let c := closure cs limit stop
      Records 1 (KnowledgeBase.ofList cs).toList c.toList (c.rounds.map fun r => r.added)
        (∃ n, c.ending = .fixpoint n) c.history
        ∧ (c.history = [] ↔ ∃ m ∈ limit, m ≤ 0) := by
  refine ⟨records_saturate, fun cs limit stop => ⟨?_, ?_⟩⟩
  · have h := records_saturate (KnowledgeBase.ofList cs).toList (KnowledgeBase.ofList cs).clauses
      limit (StopCondition.beyond stop (KnowledgeBase.ofList cs).clauses) 1
      (KnowledgeBase.ofList cs).dropped.length
    rw [← run_closure] at h
    exact h
  · exact List.map_eq_nil_iff.trans rounds_closure_eq_nil

end Resolution
