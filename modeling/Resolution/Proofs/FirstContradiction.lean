import Resolution.Proofs.Endings
import Resolution.Proofs.Exports
import Resolution.Proofs.Tokens

/-!
# Stopping at the first contradiction

A contradiction is reported in the course of a round, and the stop condition is looked at before the
next one. So the round that reports the first contradiction is finished, and it is the last one: to
stop at a contradiction comes to the same as to stop at that round by a limit
(`known_closure_onContradiction`).

Empty clauses do not count that were dropped when the file was read. They are not in the knowledge
base any more, and from a knowledge base nothing is dropped (`KnowledgeBase.ofList_toList_ofList`).
-/

namespace Resolution

/-- Some contradiction has been reported. -/
def StopCondition.onContradiction : StopCondition :=
  fun _ reported => reported != 0

/-- The number of the first round that reports a contradiction. -/
def Closure.contradictionRound? (c : Closure) : Option ℤ :=
  (c.rounds.find? fun r => !r.contradictions.isEmpty).map Round.number

section Rounds

variable {kb : List Clause} {known : ClauseSet} {n m : ℕ}

theorem reportedAfter_ne_zero_iff : reportedAfter kb 1 known 0 n ≠ 0
    ↔ ∃ i < n, (roundAt kb 1 known i).contradictions ≠ [] := by
  rw [reportedAfter, Nat.zero_add, Ne, List.length_eq_zero_iff, List.flatMap_eq_nil_iff]
  simp [mem_roundsUpTo]

theorem exists_number_le_iff (kb : List Clause) (known : ClauseSet) (h : n ≤ m) :
    (∃ l ∈ ((roundsUpTo kb 1 known m).find? fun r => !r.contradictions.isEmpty).map Round.number,
      l ≤ n) ↔ ∃ i < n, (roundAt kb 1 known i).contradictions ≠ [] := by
  have hnumber : ∀ i, (roundAt kb 1 known i).number = 1 + i := fun _ => rfl
  rw [roundsUpTo, List.find?_map]
  simp only [Option.map_map, Option.mem_def, Option.map_eq_some_iff, Function.comp_apply]
  constructor
  · rintro ⟨_, ⟨i, hi, rfl⟩, hle⟩
    obtain ⟨hcontra, -, -⟩ := List.find?_range_eq_some.mp hi
    rw [hnumber] at hle
    exact ⟨i, by omega, by simpa using hcontra⟩
  · rintro ⟨i, hi, hcontra⟩
    have hsome : ((List.range m).find?
        ((fun r => !r.contradictions.isEmpty) ∘ roundAt kb 1 known)).isSome :=
      List.find?_isSome.mpr ⟨i, List.mem_range.mpr (hi.trans_le h), by simpa using hcontra⟩
    obtain ⟨j, hj⟩ := Option.isSome_iff_exists.mp hsome
    obtain ⟨-, -, hfirst⟩ := List.find?_range_eq_some.mp hj
    have hji : j ≤ i := by
      by_contra hlt
      have hnone := hfirst i (by omega)
      simp [hcontra] at hnone
    exact ⟨_, ⟨j, hj, rfl⟩, by rw [hnumber]; omega⟩

end Rounds

section Closures

variable {cs : List Clause}

theorem exists_mem_merge_le_iff {a b : Option ℤ} {n : ℤ} :
    (∃ m ∈ a.merge min b, m ≤ n) ↔ (∃ m ∈ a, m ≤ n) ∨ ∃ m ∈ b, m ≤ n := by
  cases a <;> cases b <;> simp [Option.merge]

theorem known_closure_onContradiction (limit : Option ℤ)
    (hdropped : (KnowledgeBase.ofList cs).dropped = []) : (closure cs limit .onContradiction).known
      = (closure cs (limit.merge min (closure cs).contradictionRound?)).known := by
  obtain ⟨last, hlast, -, hrounds⟩ := exists_closure_eq_fixpoint cs
  obtain ⟨n, hn, hknown⟩ := exists_isLeast_closure cs limit .onContradiction
  obtain ⟨k, hk, hknown'⟩ :=
    exists_isLeast_closure cs (limit.merge min (closure cs).contradictionRound?) .never
  rw [hknown, hknown']
  refine congrArg _ (hn.unique ((congrArg (IsLeast · k) (Set.ext fun i => ?_)).mpr hk))
  rcases Nat.lt_or_ge i last with hi | hi
  · -- before the last round, both sides count the contradictions of the rounds so far
    have hcount := exists_number_le_iff (KnowledgeBase.ofList cs).toList
      (KnowledgeBase.ofList cs).clauses (show i ≤ last + 1 by omega)
    rw [← hrounds, ← reportedAfter_ne_zero_iff] at hcount
    have hpos : reportedAfter (KnowledgeBase.ofList cs).toList 1 (KnowledgeBase.ofList cs).clauses
        0 i ≠ 0 → 0 < i := by
      rintro hne
      by_contra hzero
      obtain rfl : i = 0 := by omega
      exact hne (reportedAfter_zero _ _ _ _)
    simp only [Set.mem_ofPred_eq, exists_mem_merge_le_iff, Closure.contradictionRound?, hcount,
      hdropped, List.length_nil, StopCondition.onContradiction, StopCondition.never, bne_iff_ne,
      and_iff_right_of_imp hpos, Bool.false_eq_true, and_false, false_or, or_assoc]
  · -- from the last one on, there is nothing new to resolve
    have hnew : newResolvents (KnowledgeBase.ofList cs).toList
        (stage (KnowledgeBase.ofList cs).toList 1 (KnowledgeBase.ofList cs).clauses i) = [] := by
      rw [stage_of_exhausted hlast hi, hlast]
    exact iff_of_true (.inr (.inr hnew)) (.inr (.inr hnew))

end Closures

namespace CommandLine

variable {request : Request} {content : List UInt8} {reading : Reading}

theorem analysis_of_loads (hlimit : .maxRounds ∉ request.bare)
    (hloads : Reading.ofBytes content = .ok reading) : request.analysis content
      = ⟨.code 0, Clause.listing (request.settings.closure reading.kb).toList,
        messages request.file request.settings reading (request.settings.closure reading.kb),
        exports request.settings (request.settings.closure reading.kb)⟩ := by
  rw [Request.analysis, if_neg hlimit, analyse, hloads]

theorem toList_ofList_kb (hloads : Reading.ofBytes content = .ok reading) :
    (KnowledgeBase.ofList reading.kb.toList).toList = reading.kb.toList := by
  obtain ⟨cs, -, rfl⟩ := map_eq_ok_iff.mp hloads
  exact (KnowledgeBase.ofList_toList_ofList cs).1

theorem dropped_ofList_kb (hloads : Reading.ofBytes content = .ok reading) :
    (KnowledgeBase.ofList reading.kb.toList).dropped = [] := by
  obtain ⟨cs, -, rfl⟩ := map_eq_ok_iff.mp hloads
  exact (KnowledgeBase.ofList_toList_ofList cs).2

/-- A run that is to stop at a contradiction collects them, whether or not they are to be reported
too. -/
theorem Settings.condition_eq (s : Settings) :
    s.condition = if s.stopOnEmpty then .onContradiction else .never := by
  unfold condition
  split_ifs with hstop
  · have hreporting : s.reporting = true := by simp [reporting, hstop]
    funext known reported
    cases reported <;> simp [hreporting, StopRule.condition, StopCondition.onContradiction]
  · rfl

theorem Settings.closure_eq (s : Settings) (kb : KnowledgeBase) :
    s.closure kb = Resolution.closure kb.toList s.maxRounds
      (if s.stopOnEmpty then .onContradiction else .never) := by
  rw [Settings.closure, Settings.condition_eq]

theorem closure_of_stopOnEmpty {s : Settings} (h : s.stopOnEmpty = true) (kb : KnowledgeBase) :
    s.closure kb = Resolution.closure kb.toList s.maxRounds .onContradiction := by
  rw [Settings.closure_eq, if_pos h]

theorem closure_of_not_stopOnEmpty {s : Settings} (h : s.stopOnEmpty = false)
    (kb : KnowledgeBase) : s.closure kb = Resolution.closure kb.toList s.maxRounds := by
  rw [Settings.closure_eq, h, if_neg Bool.false_ne_true]

/-- What is written to files depends on the clauses of a closure and on nothing else in it. -/
theorem exports_congr {s s' : Settings} {c c' : Closure} (hdot : s.dot = s'.dot)
    (hsave : s.save = s'.save) (hlevel : s.logLevel = s'.logLevel) (hknown : c.known = c'.known) :
    exports s c = exports s' c' := by
  simp only [exports, graphExport, checkpointExport, Closure.toList, hdot, hsave, hlevel, hknown]

/-- On a file that can be read, the program that is to stop at a contradiction prints the closure
within the limit it was given and the round of the first contradiction, whichever comes first. If no
round reports a contradiction, it prints what it prints without being told to stop. -/
theorem run_stopOnEmpty {σ : Type} (fs : FileSystem σ) (arguments : List String) (files : σ)
    (request : Request) (content : List UInt8) (reading : Reading)
    (hplan : plan arguments = .examine request) (hlimit : .maxRounds ∉ request.bare)
    (hstop : request.settings.stopOnEmpty = true)
    (hread : fs.read files request.file = .ok content)
    (hloads : Reading.ofBytes content = .ok reading)
    (hspares : SparesOutput fs files (request.analysis content).exports) :
    let cs := reading.kb.toList
    (run fs arguments files).output = Clause.listing (Resolution.closure cs
        (request.settings.maxRounds.merge min (Resolution.closure cs).contradictionRound?)).toList
      ∧ ((Resolution.closure cs).contradictions = [] → ∀ unstopped,
        plan unstopped = .examine
          { request with settings := { request.settings with stopOnEmpty := false } } →
        (run fs unstopped files).output = (run fs arguments files).output) := by
  intro cs
  have hknown : (request.settings.closure reading.kb).known = (Resolution.closure cs
      (request.settings.maxRounds.merge min (Resolution.closure cs).contradictionRound?)).known := by
    rw [closure_of_stopOnEmpty hstop]
    exact known_closure_onContradiction request.settings.maxRounds (dropped_ofList_kb hloads)
  have houtput : (run fs arguments files).output
      = Clause.listing (Resolution.closure cs
        (request.settings.maxRounds.merge min (Resolution.closure cs).contradictionRound?)).toList := by
    rw [output_run hplan hread hspares, analysis_of_loads hlimit hloads]
    exact congrArg (fun known => Clause.listing known.toList) hknown
  refine ⟨houtput, fun hnone unstopped hunstopped => ?_⟩
  have hround : (Resolution.closure cs).contradictionRound? = none := by
    rw [Closure.contradictions, List.flatMap_eq_nil_iff] at hnone
    rw [Closure.contradictionRound?, Option.map_eq_none_iff, List.find?_eq_none]
    exact fun r hr => by simp [hnone r hr]
  rw [hround, Option.merge_none_right] at hknown houtput
  -- with the same clauses the other run writes the same files, so it leaves the output alone too
  set request' : Request :=
    { request with settings := { request.settings with stopOnEmpty := false } }
  have hclosure : request'.settings.closure reading.kb
      = Resolution.closure cs request.settings.maxRounds := closure_of_not_stopOnEmpty rfl _
  have hanalysis : request'.analysis content = _ := analysis_of_loads hlimit hloads
  have hexports : (request'.analysis content).exports = (request.analysis content).exports := by
    rw [hanalysis, analysis_of_loads hlimit hloads]
    exact exports_congr rfl rfl rfl ((congrArg Closure.known hclosure).trans hknown.symm)
  have hspares' : SparesOutput fs files (request'.analysis content).exports := by
    rwa [hexports]
  rw [houtput, output_run hunstopped hread hspares', hanalysis, ← hclosure]

/-- `B` is derived in the first round and contradicts in the second, which derives `C` too; the
third would derive `D`. The empty clause of the file does not count. On the other file, which holds
no contradiction, the option makes no difference. -/
theorem run_stopOnEmpty_second :
    let file := Utf8.encode "()\n(A)\n((not A) B)\n((not B))\n((not B) C)\n((not C) D)\n"
    let other := Utf8.encode "(A)\n((not A) B)\n"
    let files := [("kb.txt", file), ("other.txt", other)]
    let run := run .listed
    let stopped := ["kb.txt", "--stop-on-empty", "--max-rounds", "5"]
    let request : Request := ⟨"kb.txt", { stopOnEmpty := true, maxRounds := some 5 }, []⟩
    let reading : Reading := ⟨6, .ofList [⟨[], [], 0⟩, ⟨[⟨true, "A"⟩], [], 0⟩,
      ⟨[⟨false, "A"⟩, ⟨true, "B"⟩], [], 0⟩, ⟨[⟨false, "B"⟩], [], 0⟩,
      ⟨[⟨false, "B"⟩, ⟨true, "C"⟩], [], 0⟩, ⟨[⟨false, "C"⟩, ⟨true, "D"⟩], [], 0⟩]⟩
    let request' : Request := ⟨"other.txt", { stopOnEmpty := true }, []⟩
    let reading' : Reading := ⟨2, .ofList [⟨[⟨true, "A"⟩], [], 0⟩,
      ⟨[⟨false, "A"⟩, ⟨true, "B"⟩], [], 0⟩]⟩
    (plan stopped = .examine request ∧ .maxRounds ∉ request.bare
        ∧ request.settings.stopOnEmpty = true
        ∧ FileSystem.listed.read files request.file = .ok file
        ∧ Reading.ofBytes file = .ok reading
        ∧ (Resolution.closure reading.kb.toList).contradictionRound? = some 2
        ∧ (run stopped files).output = "A\n(not A) B\n(not B)\n(not B) C\n(not C) D\nB\n(not A)\n"
          ++ "(not A) C\n(not B) D\nC\n(not A) D\n")
      ∧ plan ["other.txt", "--stop-on-empty"] = .examine request'
        ∧ FileSystem.listed.read files request'.file = .ok other
        ∧ Reading.ofBytes other = .ok reading'
        ∧ (Resolution.closure reading'.kb.toList).contradictions = []
        ∧ plan ["other.txt"] = .examine ⟨"other.txt", {}, []⟩
        ∧ (run ["other.txt"] files).output = (run ["other.txt", "--stop-on-empty"] files).output
        ∧ (run ["other.txt"] files).output = "A\n(not A) B\nB\n" := by
  intro file other files run stopped request reading request' reading'
  have hplan : plan stopped = .examine request := by decide
  have hread : FileSystem.listed.read files "kb.txt" = .ok file := rfl
  have hloads : Reading.ofBytes file = .ok reading := rfl
  have hround : (Resolution.closure reading.kb.toList).contradictionRound? = some 2 := by decide
  have hplan' : plan ["other.txt", "--stop-on-empty"] = .examine request' := by decide
  have hread' : FileSystem.listed.read files "other.txt" = .ok other := rfl
  have hloads' : Reading.ofBytes other = .ok reading' := rfl
  have hnone : (Resolution.closure reading'.kb.toList).contradictions = [] := by decide
  have hplain : plan ["other.txt"] = .examine ⟨"other.txt", {}, []⟩ := by decide
  have hstopped := (run_stopOnEmpty .listed stopped files request file reading hplan (by decide) rfl
    hread hloads (sparesOutput_listed _ _)).1
  obtain ⟨houtput, hsame⟩ := run_stopOnEmpty .listed _ files request' other reading' hplan'
    (by decide) rfl hread' hloads' (sparesOutput_listed _ _)
  have hunstopped := hsame hnone _ hplain
  rw [hround] at hstopped
  exact ⟨⟨hplan, by decide, rfl, hread, hloads, hround, hstopped.trans (by decide)⟩, hplan', hread',
    hloads', hnone, hplain, hunstopped, hunstopped.trans (houtput.trans (by decide))⟩

end CommandLine

end Resolution
