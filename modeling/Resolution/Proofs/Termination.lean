import Resolution.Proofs.NormalCount
import Resolution.Proofs.Stages

/-!
# Runs without a limit

Over `n` atoms fewer than `3 ^ n` clauses can be added, and every round but the last adds one, so
a run without a limit never uses up its `3 ^ n` rounds (`ending_saturate_ne_roundLimit`). A larger
budget changes nothing then, so that with and without a limit `saturate` is the loop that looks at
limit and stop condition, runs a round and goes on from there (`saturate_eq`).
-/

namespace Resolution

section Atoms

variable {cs : List Clause} {a : String}

theorem mem_atoms : a ∈ atoms cs ↔ ∃ c ∈ cs, ∃ l ∈ c.literals, l.atom = a := by
  simp [atoms, List.mem_eraseDups]

theorem nodup_eraseDups {α : Type*} [BEq α] [LawfulBEq α] : ∀ as : List α, as.eraseDups.Nodup
  | [] => .nil
  | a :: as => by
    rw [List.eraseDups_cons]
    have ih := nodup_eraseDups (as.filter fun b => !b == a)
    refine List.nodup_cons.mpr ⟨fun h => ?_, ih⟩
    simp [List.mem_eraseDups] at h
termination_by as => as.length
decreasing_by exact Nat.lt_succ_of_le (List.length_filter_le _ _)

theorem nodup_atoms (cs : List Clause) : (atoms cs).Nodup :=
  nodup_eraseDups _

end Atoms

section Growth

variable (kb : List Clause) (first : ℤ) (known : ClauseSet)

/-- Stages stay within the atoms of the knowledge base and of what was known at first. -/
theorem atom_mem_of_mem_stage {n : ℕ} {ls : List Literal} (h : ls ∈ stage kb first known n)
    {l : Literal} (hl : l ∈ ls) : l.atom ∈ atoms (kb ++ known.toList) := by
  induction n generalizing ls with
  | zero =>
    obtain ⟨c, hc, rfl⟩ := ClauseSet.mem_iff.mp h
    exact mem_atoms.mpr ⟨c, List.mem_append_right _ hc, l, hl, rfl⟩
  | succ n ih =>
    rcases mem_known_perform.mp h with h | ⟨k, hk, q, hq, r, hr, -, rfl⟩
    · exact ih h hl
    · rcases mem_literals_of_mem_resolve hr hl with hl | hl
      · exact mem_atoms.mpr ⟨k, List.mem_append_left _ hk, l, hl, rfl⟩
      · exact ih (ClauseSet.mem_of_mem_toList hq) hl

theorem normalOver_of_mem_added {n : ℕ} {c : Clause} (h : c ∈ (roundAt kb first known n).added) :
    NormalOver (atoms (kb ++ known.toList)) c.literals := by
  obtain ⟨-, -, hne, k, -, q, -, r, hr, hls, -⟩ := mem_added_perform h
  have hmem : c.literals ∈ stage kb first known (n + 1) :=
    ClauseSet.mem_of_mem_toList (mem_stage_succ_of_mem_added h)
  refine ⟨hls ▸ normalForm_of_mem_resolve hr, Clause.isEmpty_eq_false_iff.mp hne, fun l hl => ?_⟩
  exact atom_mem_of_mem_stage kb first known hmem hl

theorem length_addedUpTo_lt (n : ℕ) :
    (addedUpTo kb first known n).length < 3 ^ (atoms (kb ++ known.toList)).length := by
  -- the clauses of a stage are distinct, those added behind the others too
  have hd := (stage kb first known n).distinct
  rw [toList_stage, List.map_append, List.nodup_append] at hd
  have hover : ∀ ls ∈ (addedUpTo kb first known n).map Clause.literals,
      NormalOver (atoms (kb ++ known.toList)) ls := by
    intro ls hls
    obtain ⟨c, hc, rfl⟩ := List.mem_map.mp hls
    obtain ⟨i, -, hc⟩ := mem_addedUpTo.mp hc
    exact normalOver_of_mem_added kb first known hc
  have hlt := length_lt_of_normalOver hd.2.1 hover
  rwa [List.length_map] at hlt

variable {kb first known}

theorem le_length_addedUpTo {n : ℕ}
    (h : ∀ i < n, newResolvents kb (stage kb first known i) ≠ []) :
    n ≤ (addedUpTo kb first known n).length := by
  induction n with
  | zero => exact Nat.zero_le _
  | succ n ih =>
    have hn := ih fun i hi => h i (by omega)
    have hpos : 0 < (roundAt kb first known n).added.length :=
      List.length_pos_iff.mpr (added_perform_ne_nil (h n (by omega)))
    rw [addedUpTo_succ, List.length_append]
    omega

theorem lt_of_forall_newResolvents {n : ℕ}
    (h : ∀ i < n, newResolvents kb (stage kb first known i) ≠ []) :
    n < 3 ^ (atoms (kb ++ known.toList)).length :=
  (le_length_addedUpTo h).trans_lt (length_addedUpTo_lt kb first known n)

end Growth

section Unlimited

variable {kb : List Clause} {stop : StopCondition} {first : ℤ} {reported budget : ℕ}
  {known : ClauseSet}

theorem ending_saturate_ne_roundLimit :
    (saturate kb known none stop first reported).ending ≠ .roundLimit := by
  intro hlimit
  obtain ⟨n, hn, hend⟩ := exists_saturate_endsAfter kb known none stop first reported
  have hlt := lt_of_forall_newResolvents fun i hi => (hn i hi).2
  have hn' : n = 3 ^ (atoms (kb ++ known.toList)).length := hend.eq_budget hlimit
  omega

/-- A run that does not use up its budget is the same with a larger one. -/
theorem saturateWithin_add
    (h : (saturateWithin kb stop budget first reported known).ending ≠ .roundLimit) (extra : ℕ) :
    saturateWithin kb stop (budget + extra) first reported known
      = saturateWithin kb stop budget first reported known := by
  induction budget generalizing first reported known with
  | zero => simp [saturateWithin] at h
  | succ budget ih =>
    rw [Nat.succ_add]
    unfold saturateWithin at h ⊢
    dsimp only at h ⊢
    split_ifs with hs hb
    · rfl
    · rfl
    · rw [if_neg hs, if_neg hb] at h
      rw [ih h]

theorem saturateWithin_eq_saturate
    (h : (saturateWithin kb stop budget first reported known).ending ≠ .roundLimit) :
    saturateWithin kb stop budget first reported known
      = saturate kb known none stop first reported := by
  have h' : (saturateWithin kb stop (roundBudget kb known none) first reported known).ending
      ≠ .roundLimit := ending_saturate_ne_roundLimit
  -- both are the run within the two budgets together
  rw [← saturateWithin_add h (roundBudget kb known none), Nat.add_comm, saturateWithin_add h']
  rfl

theorem saturateWithin_of_le (h : 3 ^ (atoms (kb ++ known.toList)).length ≤ budget) :
    saturateWithin kb stop budget first reported known
      = saturate kb known none stop first reported := by
  obtain ⟨extra, rfl⟩ := Nat.exists_eq_add_of_le h
  exact saturateWithin_add ending_saturate_ne_roundLimit extra

/-- The loop as it goes, without a bound when there is no limit: limit and stop condition are
looked at first, and after a round that finds something it goes on from what the round leaves. -/
theorem saturate_eq (limit : Option ℤ) : saturate kb known limit stop first reported =
    if limit.any (· ≤ 0) then ⟨known, [], .roundLimit⟩
    else if stop known reported then ⟨known, [], .stopped first⟩
    else
      let round := Round.perform kb first known
      if round.batch.isEmpty then ⟨known, [round], .fixpoint first⟩
      else (saturate kb round.known (limit.map (· - 1)) stop (first + 1)
        (reported + round.contradictions.length)).preceded round := by
  cases limit with
  | none =>
    have hend : (saturate kb known none stop first reported).ending ≠ .roundLimit :=
      ending_saturate_ne_roundLimit
    -- with one round more in the budget the loop unfolds once
    rw [← saturateWithin_of_le (Nat.le_succ _)] at hend ⊢
    unfold saturateWithin at hend ⊢
    simp only [Option.any_none, Bool.false_eq_true, if_false] at hend ⊢
    split_ifs with hs hb
    · rfl
    · rfl
    · rw [if_neg hs, if_neg hb] at hend
      rw [saturateWithin_eq_saturate hend]
      rfl
  | some m =>
    simp only [Option.any_some, decide_eq_true_eq, Option.map_some]
    by_cases hm : m ≤ 0
    · rw [if_pos hm, saturate, roundBudget, Int.toNat_of_nonpos hm, saturateWithin]
    · have hbudget : m.toNat = (m - 1).toNat + 1 := by omega
      rw [if_neg hm, saturate, roundBudget, hbudget, saturateWithin]
      rfl

/-- Without limit and stop condition, a run goes through the stages up to one from which nothing
new can be resolved. -/
theorem exists_saturate_eq_stage (kb : List Clause) (known : ClauseSet) (first : ℤ)
    (reported : ℕ) : ∃ n < 3 ^ (atoms (kb ++ known.toList)).length,
      newResolvents kb (stage kb first known n) = []
        ∧ saturate kb known none .never first reported = ⟨stage kb first known n,
          roundsUpTo kb first known (n + 1), .fixpoint (first + n)⟩ := by
  obtain ⟨n, -, hend⟩ := exists_saturate_endsAfter kb known none .never first reported
  have hlimit : (saturate kb known none .never first reported).ending ≠ .roundLimit :=
    ending_saturate_ne_roundLimit
  generalize saturate kb known none .never first reported = run at hend hlimit ⊢
  cases hend with
  | roundLimit => exact absurd rfl hlimit
  | stopped _ hs => exact absurd hs (by simp [StopCondition.never])
  | fixpoint hn _ hnew => exact ⟨n, hn, hnew, rfl⟩

/-- Without limit and stop condition, saturation reaches its fixpoint within `3 ^ n` rounds over
`n` distinct atoms, whatever larger budget it is given, and adds at most `3 ^ n - 1` clauses. Each
of its rounds adds something when it finds something, and what it adds are normal forms over these
atoms, not empty and not known before the round. -/
theorem saturate_terminates (kb : List Clause) (known : ClauseSet) (first : ℤ) :
    let n := (atoms (kb ++ known.toList)).length
    let run := saturate kb known none .never first
    (atoms (kb ++ known.toList)).Nodup
      ∧ (∃ last, run.ending = .fixpoint last) ∧ run.rounds.length ≤ 3 ^ n
      ∧ run.known.size ≤ known.size + (3 ^ n - 1)
      ∧ (∀ budget, 3 ^ n ≤ budget → saturateWithin kb .never budget first 0 known = run)
      ∧ ∀ (i : ℕ) (round : Round), run.rounds[i]? = some round →
        round = Round.perform kb (first + i) (stage kb first known i)
          ∧ (newResolvents kb (stage kb first known i) ≠ [] → round.added ≠ [])
          ∧ ∀ c ∈ round.added, c.isEmpty = false ∧ c.standardize = c
            ∧ (∀ l ∈ c.literals, l.atom ∈ atoms (kb ++ known.toList))
            ∧ (stage kb first known i).contains c = false := by
  intro n run
  obtain ⟨m, hm, -, hrun⟩ := exists_saturate_eq_stage kb known first 0
  have hrun : run = ⟨stage kb first known m, roundsUpTo kb first known (m + 1),
    .fixpoint (first + m)⟩ := hrun
  refine ⟨nodup_atoms _, ⟨_, by rw [hrun]⟩, ?_, ?_, fun budget hb => saturateWithin_of_le hb,
    fun i round hround => ?_⟩
  · rw [hrun, length_roundsUpTo]
    exact hm
  · have hlt : (addedUpTo kb first known m).length < 3 ^ n := length_addedUpTo_lt kb first known m
    rw [hrun, size_stage]
    omega
  · rw [hrun] at hround
    obtain rfl := eq_roundAt_of_getElem? kb first known hround
    refine ⟨rfl, added_perform_ne_nil, fun c hc => ?_⟩
    obtain ⟨hnew, -, hne, -⟩ := mem_added_perform hc
    have hover := normalOver_of_mem_added kb first known hc
    refine ⟨hne, Clause.standardize_of_normalForm hover.normal, hover.atom_mem, ?_⟩
    rw [← Bool.not_eq_true, ClauseSet.contains_iff_mem]
    exact hnew

end Unlimited

end Resolution
