import Resolution.History
import Resolution.Proofs.Checkpoints
import Resolution.Proofs.Limits

/-!
# Runs in two parts

A run that its limit ended can be taken up where it stopped. With the number of the next round and
the count of contradictions so far, the second part goes through the rounds that the run would have
gone through without a stop (`saturate_add`). Where the first part came to its fixpoint before the
limit, the second one runs a round of its own that finds nothing, and only the known set is the
same (`known_saturate_add`).

A checkpoint in between makes no difference, as it gives back the known set in its order and with
all records.
-/

namespace Resolution

/-- The run with the rounds of an earlier part put in front. -/
def Run.after (run : Run) (earlier : List Round) : Run :=
  { run with rounds := earlier ++ run.rounds }

section Parts

variable {kb : List Clause} {stop : StopCondition} {first m : ℤ} {reported budget : ℕ}
  {known : ClauseSet} {limit : Option ℤ}

theorem saturateWithin_add_of_roundLimit {part : Run}
    (hpart : saturateWithin kb stop budget first reported known = part)
    (hend : part.ending = .roundLimit) (extra : ℕ) :
    saturateWithin kb stop (budget + extra) first reported known
      = (saturateWithin kb stop extra (first + budget)
          (reported + part.contradictions.length) part.known).after part.rounds := by
  induction budget generalizing first reported known part with
  | zero =>
    subst hpart
    simp [saturateWithin, Run.after, Run.contradictions]
  | succ budget ih =>
    rw [saturateWithin] at hpart
    rw [Nat.succ_add, saturateWithin]
    dsimp only at hpart ⊢
    split_ifs at hpart ⊢ with hs hb
    · subst hpart
      simp at hend
    · subst hpart
      simp at hend
    · subst hpart
      rw [ih rfl hend, number_succ, Run.contradictions_preceded, List.length_append,
        ← Nat.add_assoc]
      rfl

theorem saturate_add (hm : 0 ≤ m) (hlimit : ∀ n ∈ limit, 0 ≤ n)
    (hend : (saturate kb known (some m) stop first reported).ending = .roundLimit) :
    let part := saturate kb known (some m) stop first reported
    saturate kb known (limit.map (m + ·)) stop first reported
      = (saturate kb part.known limit stop (first + m)
          (reported + part.contradictions.length)).after part.rounds := by
  intro part
  have hfirst : first + (m.toNat : ℤ) = first + m := by omega
  have hadd := saturateWithin_add_of_roundLimit
    (rfl : saturateWithin kb stop m.toNat first reported known = part) hend
  rw [hfirst] at hadd
  cases limit with
  | some n =>
    have hn : 0 ≤ n := hlimit n rfl
    have hbudget : (m + n).toNat = m.toNat + n.toNat := by omega
    rw [Option.map_some, saturate, roundBudget, hbudget, hadd]
    rfl
  | none =>
    -- the budget of the second part lets the whole run come to its end too
    have hwhole := hadd (roundBudget kb part.known none)
    rw [Option.map_none, ← saturateWithin_eq_saturate, hwhole]
    · rfl
    · rw [hwhole]
      exact ending_saturate_ne_roundLimit

end Parts

section Unconditional

variable {kb : List Clause} {first m : ℤ} {known : ClauseSet} {limit : Option ℤ}

/-- Where no condition looks at it, the count of contradictions makes no difference. -/
theorem saturateWithin_never : ∀ (budget : ℕ) (first : ℤ) (reported : ℕ) (known : ClauseSet),
    saturateWithin kb .never budget first reported known
      = saturateWithin kb .never budget first 0 known
  | 0, _, _, _ => rfl
  | budget + 1, first, reported, known => by
    rw [saturateWithin, saturateWithin]
    dsimp only
    rw [saturateWithin_never budget _ (reported + _), saturateWithin_never budget _ (0 + _)]
    rfl

theorem known_saturate_add (hm : 0 ≤ m) (hlimit : ∀ n ∈ limit, 0 ≤ n) :
    (saturate kb (saturate kb known (some m) .never first).known limit .never (first + m)).known
      = (saturate kb known (limit.map (m + ·)) .never first).known := by
  have hstages : ∀ n, stage kb (first + m) (stage kb first known m.toNat) n
      = stage kb first known (m.toNat + n) := fun n => by
    rw [stage_add, Int.toNat_of_nonneg hm]
  rw [known_saturate_some]
  cases limit with
  | some n =>
    have hn : 0 ≤ n := hlimit n rfl
    rw [Option.map_some, known_saturate_some, known_saturate_some, hstages, Int.toNat_add hm hn]
  | none =>
    obtain ⟨i, hi⟩ := @known_saturate_none kb (first + m) (stage kb first known m.toNat) 0
    obtain ⟨j, hj⟩ := @known_saturate_none kb first known 0
    -- late enough for both runs
    rw [Option.map_none, hi (max i j) (le_max_left i j), hstages,
      hj _ ((le_max_right i j).trans (Nat.le_add_left _ _))]

end Unconditional

/-- A run of at most `m` rounds whose known set goes through a checkpoint and is then saturated
further, from the round number `m` later on and for as many rounds as a limit allows, ends with the
list of clauses that one run with both limits together ends with. If it was its limit that ended the
first part, the two histories one after the other are the history of the one run. -/
theorem saturate_resume (kb : List Clause) (known : ClauseSet) (first m : ℤ) (limit : Option ℤ)
    (hm : 0 ≤ m) (hlimit : ∀ n ∈ limit, 0 ≤ n) :
    let part := saturate kb known (some m) .never first
    let whole := saturate kb known (limit.map (m + ·)) .never first
    ∃ restored, Checkpoint.toSet (Checkpoint.ofSet part.known) = .ok restored ∧
      let rest := saturate kb restored limit .never (first + m)
      rest.known.toList = whole.known.toList
        ∧ (part.ending = .roundLimit → part.history ++ rest.history = whole.history) := by
  intro part whole
  refine ⟨part.known, Checkpoint.toSet_ofSet part.known, ?_, fun hend => ?_⟩
  · rw [known_saturate_add hm hlimit]
  · have hwhole : whole = (saturate kb part.known limit .never (first + m)
        (0 + part.contradictions.length)).after part.rounds := saturate_add hm hlimit hend
    rw [saturate, saturateWithin_never] at hwhole
    rw [hwhole, Run.history, Run.history, ← List.map_append]
    rfl

/-- The chain is known and saturated from round 5 on: one round, a checkpoint, and two more of which
the second finds nothing. -/
theorem saturate_resume_chain :
    let kb := KnowledgeBase.ofList chain
    let part := saturate kb.toList kb.clauses (some 1) .never 5
    let whole := saturate kb.toList kb.clauses (some (1 + 2)) .never 5
    (0 : ℤ) ≤ 1 ∧ (∀ n ∈ some (2 : ℤ), 0 ≤ n) ∧ part.ending = .roundLimit
      ∧ ∃ restored, Checkpoint.toSet (Checkpoint.ofSet part.known) = .ok restored ∧
        let rest := saturate kb.toList restored (some 2) .never (5 + 1)
        rest.known.toList = whole.known.toList ∧ part.history ++ rest.history = whole.history := by
  intro kb part whole
  have hlimit : ∀ n ∈ some (2 : ℤ), 0 ≤ n := by simp
  have hend : part.ending = .roundLimit := by decide
  obtain ⟨restored, hrestored, hlist, hhistory⟩ :=
    saturate_resume kb.toList kb.clauses 5 1 (some 2) (by decide) hlimit
  exact ⟨by decide, hlimit, hend, restored, hrestored, hlist, hhistory hend⟩

end Resolution
