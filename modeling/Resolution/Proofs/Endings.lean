import Resolution.Proofs.Limits

/-!
# Where runs end

`saturate` looks at the limit and at the stop condition before every round, so it ends with the
first stage at which one of them holds or nothing new can be resolved (`exists_isLeast_saturate`).

`closure` looks at the stop condition only when its opening round is over: the run of a closure is
that of `saturate` under a condition that waits until something has been added (`run_closure`). A
condition that the knowledge base itself meets therefore comes one round too late
(`closure_past_stop`); past the opening round nothing is different.
-/

namespace Resolution

/-- The condition that waits for a set larger than `s`. -/
def StopCondition.beyond (stop : StopCondition) (s : ClauseSet) : StopCondition :=
  fun known reported => decide (s.size < known.size) && stop known reported

namespace Closure

variable (c : Closure)

/-- How the run that made the closure came to its end. -/
def ending : Ending :=
  match c.opening, c.continuation with
  | _, some run => run.ending
  | some r, none => .fixpoint r.number
  | none, none => .roundLimit

/-- The rounds of the closure as one run. -/
def run : Run :=
  ⟨c.known, c.rounds, c.ending⟩

end Closure

section Sizes

variable {kb : List Clause} {first : ℤ} {known : ClauseSet}

theorem size_known_perform : (Round.perform kb first known).known.size
    = known.size + (Round.perform kb first known).added.length := by
  rw [ClauseSet.size, toList_known_perform, List.length_append, ClauseSet.size]

theorem size_lt_size_known_perform (first : ℤ) (h : newResolvents kb known ≠ []) :
    known.size < (Round.perform kb first known).known.size := by
  have hpos : 0 < (Round.perform kb first known).added.length :=
    List.length_pos_iff.mpr (added_perform_ne_nil h)
  rw [size_known_perform]
  omega

theorem size_lt_size_stage {n : ℕ} (h : newResolvents kb known ≠ []) (hn : 0 < n) :
    known.size < (stage kb first known n).size := by
  have hpre := (stage_isPrefix kb first known (Nat.succ_le_of_lt hn)).length_le
  rw [stage_succ, roundAt_zero] at hpre
  exact (size_lt_size_known_perform first h).trans_le hpre

end Sizes

section Runs

variable {kb : List Clause} {stop stop' : StopCondition} {first : ℤ} {reported budget : ℕ}
  {known : ClauseSet} {limit : Option ℤ}

/-- A run asks its condition only about sets at least as large as the one it starts from. -/
theorem saturateWithin_congr (h : ∀ s n, known.size ≤ s.size → stop s n = stop' s n) :
    saturateWithin kb stop budget first reported known
      = saturateWithin kb stop' budget first reported known := by
  induction budget generalizing first reported known with
  | zero => rfl
  | succ budget ih =>
    have hsize : known.size ≤ (Round.perform kb first known).known.size := by
      rw [size_known_perform]
      omega
    unfold saturateWithin
    dsimp only
    rw [h known reported le_rfl, ih fun s n hs => h s n (hsize.trans hs)]

theorem exists_isLeast_saturate (kb : List Clause) (known : ClauseSet) (limit : Option ℤ)
    (stop : StopCondition) (first : ℤ) (reported : ℕ) :
    ∃ n, IsLeast {n : ℕ | (∃ m ∈ limit, m ≤ n)
        ∨ stop (stage kb first known n) (reportedAfter kb first known reported n) = true
        ∨ newResolvents kb (stage kb first known n) = []} n
      ∧ (saturate kb known limit stop first reported).known = stage kb first known n := by
  obtain ⟨n, hn, hend⟩ := exists_saturate_endsAfter kb known limit stop first reported
  have hlimit : limit = none → (saturate kb known limit stop first reported).ending ≠ .roundLimit :=
    fun h => h ▸ ending_saturate_ne_roundLimit
  generalize saturate kb known limit stop first reported = run at hend hlimit ⊢
  refine ⟨n, ⟨?_, fun k hk => ?_⟩, hend.known_eq⟩
  · cases hend with
    | roundLimit hbudget =>
      rcases limit with _ | m
      · exact absurd rfl (hlimit rfl)
      · exact .inl ⟨m, rfl, hbudget ▸ Int.self_le_toNat m⟩
    | stopped _ hs => exact .inr (.inl hs)
    | fixpoint _ _ hnew => exact .inr (.inr hnew)
  · by_contra hlt
    obtain ⟨hs, hnew⟩ := hn k (by omega)
    rcases hk with ⟨m, hm, hmk⟩ | hk | hk
    · -- the limit lets no run get past `k` rounds
      obtain rfl : limit = some m := hm
      have hbudget : n ≤ m.toNat := by
        cases hend with
        | roundLimit h => exact h.le
        | stopped h => exact h.le
        | fixpoint h => exact h.le
      omega
    · rw [hs] at hk
      exact Bool.false_ne_true hk
    · exact hnew hk

/-- Every round follows rounds that found something, and starts from a set of which the stop
condition does not hold. -/
theorem of_lt_length_rounds {i : ℕ}
    (hi : i < (saturate kb known limit stop first reported).rounds.length) :
    (∀ j < i, newResolvents kb (stage kb first known j) ≠ [])
      ∧ stop (stage kb first known i) (reportedAfter kb first known reported i) = false := by
  obtain ⟨n, hn, hend⟩ := exists_saturate_endsAfter kb known limit stop first reported
  generalize saturate kb known limit stop first reported = run at hend hi
  have hle : i < n → (∀ j < i, newResolvents kb (stage kb first known j) ≠ [])
      ∧ stop (stage kb first known i) (reportedAfter kb first known reported i) = false :=
    fun hlt => ⟨fun j hj => (hn j (hj.trans hlt)).2, (hn i hlt).1⟩
  cases hend with
  | roundLimit => exact hle (by simpa using hi)
  | stopped => exact hle (by simpa using hi)
  | fixpoint _ hs =>
    rw [length_roundsUpTo] at hi
    rcases Nat.lt_succ_iff_lt_or_eq.mp hi with hlt | rfl
    · exact hle hlt
    · exact ⟨fun j hj => (hn j hj).2, hs⟩

end Runs

section Closures

variable {kb : List Clause} {stop : StopCondition} {first : ℤ} {known : ClauseSet}

theorem beyond_self (stop : StopCondition) (s : ClauseSet) (reported : ℕ) :
    stop.beyond s s reported = false := by
  simp [StopCondition.beyond]

theorem beyond_stage (h : newResolvents kb known ≠ []) (n reported : ℕ) :
    stop.beyond known (stage kb first known n) reported
      = (decide (0 < n) && stop (stage kb first known n) reported) := by
  rcases Nat.eq_zero_or_pos n with rfl | hn
  · rw [stage_zero, beyond_self]
    rfl
  · have hsize : known.size < (stage kb first known n).size := size_lt_size_stage h hn
    rw [StopCondition.beyond, decide_eq_true hsize, decide_eq_true hn]

theorem run_closure (cs : List Clause) (limit : Option ℤ) (stop : StopCondition) :
    let kb := KnowledgeBase.ofList cs
    (closure cs limit stop).run
      = saturate kb.toList kb.clauses limit (stop.beyond kb.clauses) 1 kb.dropped.length := by
  intro kb
  rw [saturate_eq, beyond_self, if_neg Bool.false_ne_true, closure]
  dsimp only
  split_ifs with hlimit hb
  · rfl
  · rfl
  · -- what the opening round leaves is larger, so the condition has nothing more to wait for
    have hnew : newResolvents kb.toList kb.clauses ≠ [] := fun hnil =>
      hb (List.isEmpty_iff.mpr (batch_perform_eq_nil.mpr hnil))
    have hsize := size_lt_size_known_perform 1 hnew
    have hcongr : ∀ limit first reported,
        saturate kb.toList (Round.perform kb.toList 1 kb.clauses).known limit stop first reported
          = saturate kb.toList (Round.perform kb.toList 1 kb.clauses).known limit
              (stop.beyond kb.clauses) first reported := fun limit first reported =>
      saturateWithin_congr fun s n hs => by
        rw [StopCondition.beyond, decide_eq_true (hsize.trans_le hs), Bool.true_and]
    rw [← hcongr]
    simp [Closure.run, Closure.known, Closure.rounds, Closure.ending, Run.preceded, kb]

theorem exists_isLeast_closure (cs : List Clause) (limit : Option ℤ) (stop : StopCondition) :
    let kb := KnowledgeBase.ofList cs
    ∃ n, IsLeast {n : ℕ | (∃ m ∈ limit, m ≤ n)
        ∨ (0 < n ∧ stop (stage kb.toList 1 kb.clauses n)
          (reportedAfter kb.toList 1 kb.clauses kb.dropped.length n) = true)
        ∨ newResolvents kb.toList (stage kb.toList 1 kb.clauses n) = []} n
      ∧ (closure cs limit stop).known = stage kb.toList 1 kb.clauses n := by
  intro kb
  obtain ⟨n, hleast, hknown⟩ := exists_isLeast_saturate kb.toList kb.clauses limit
    (stop.beyond kb.clauses) 1 kb.dropped.length
  rw [← run_closure] at hknown
  refine ⟨n, ?_, hknown⟩
  by_cases hnew : newResolvents kb.toList kb.clauses = []
  · -- from a knowledge base with nothing to resolve, both sets begin with 0
    have hn : n = 0 := Nat.le_zero.mp (hleast.2 (.inr (.inr hnew)))
    subst hn
    exact ⟨.inr (.inr hnew), fun _ _ => Nat.zero_le _⟩
  · simpa only [beyond_stage hnew, Bool.and_eq_true, decide_eq_true_eq] using hleast

end Closures

/-- Of the chain, the knowledge base has three clauses, so a condition on three of them ends a run
before its first round; but the closure goes on for one round. -/
theorem closure_past_stop :
    let stop : ClauseSet → Bool := fun known => 3 ≤ known.size
    let kb := KnowledgeBase.ofList chain
    let c := closure chain none fun known _ => stop known
    IsLeast {n : ℕ | (∃ m ∈ (none : Option ℤ), m ≤ n)
        ∨ stop (stage kb.toList 1 kb.clauses n) = true
        ∨ newResolvents kb.toList (stage kb.toList 1 kb.clauses n) = []} 0
      ∧ c.toList ≠ (stage kb.toList 1 kb.clauses 0).toList ∧ c.rounds.length = 1 := by
  intro stop kb c
  have hstop : stop (stage kb.toList 1 kb.clauses 0) = true := by decide
  exact ⟨⟨.inr (.inl hstop), fun _ _ => Nat.zero_le _⟩, by decide, by decide⟩

/-- A closure is the first stage of its knowledge base at which the limit is reached, or the stop
condition holds and the opening round is over, or nothing new can be resolved. Every round but the
opening one starts from a set of which the stop condition does not hold. -/
theorem closure_isLeast_ending (cs : List Clause) (limit : Option ℤ) (stop : ClauseSet → Bool) :
    let kb := KnowledgeBase.ofList cs
    let c := closure cs limit fun known _ => stop known
    (∃ n, IsLeast {n : ℕ | (∃ m ∈ limit, m ≤ n)
          ∨ (0 < n ∧ stop (stage kb.toList 1 kb.clauses n) = true)
          ∨ newResolvents kb.toList (stage kb.toList 1 kb.clauses n) = []} n
        ∧ c.toList = (stage kb.toList 1 kb.clauses n).toList)
      ∧ ∀ i, 0 < i → i < c.rounds.length → stop (stage kb.toList 1 kb.clauses i) = false := by
  intro kb c
  obtain ⟨n, hleast, hknown⟩ := exists_isLeast_closure cs limit fun known _ => stop known
  refine ⟨⟨n, hleast, congrArg ClauseSet.toList hknown⟩, fun i hi hlt => ?_⟩
  have hrounds : c.rounds = (saturate kb.toList kb.clauses limit
      (StopCondition.beyond (fun known _ => stop known) kb.clauses) 1 kb.dropped.length).rounds :=
    congrArg Run.rounds (run_closure cs limit _)
  rw [hrounds] at hlt
  obtain ⟨hfound, hs⟩ := of_lt_length_rounds hlt
  have hnew : newResolvents kb.toList kb.clauses ≠ [] := hfound 0 hi
  rwa [beyond_stage hnew, decide_eq_true hi, Bool.true_and] at hs

end Resolution
