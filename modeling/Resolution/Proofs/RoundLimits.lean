import Resolution.Proofs.Endings
import Resolution.Saturation.Counters

/-!
# What a trace reports of a round limit

Every turn of the loop that counts its rounds counts one and writes one header, or writes the last
line of the trace; a report gives the count (`InStep.of_goesOn`, `InStep.tallied_of_ends`). The
loop needs one turn more than there are rounds left, ends where `saturate` ends, and writes the
same trace (`exists_loop_eq`).

So a run of `saturate` that is cut short reports as many rounds as its trace has headers. A closure
runs its opening round before the loop begins to count, and writes its header. So it reports one
round less, although its limit counts all of them.
-/

namespace Resolution

section Lines

variable {start part : String}

theorem beginsWith_append (h : beginsWith start part = true) (rest : String) :
    beginsWith start (part ++ rest) = true := by
  rw [beginsWith, List.isPrefixOf_iff_prefix] at *
  rw [String.toList_append]
  exact h.trans (List.prefix_append ..)

/-- A line that begins in one way does not begin in another, unless one is a part of the other. -/
theorem not_beginsWith_append (h : beginsWith start part = false)
    (h' : beginsWith part start = false) (rest : String) :
    beginsWith start (part ++ rest) = false := by
  rw [← Bool.not_eq_true, beginsWith, List.isPrefixOf_iff_prefix] at *
  rw [String.toList_append]
  intro hpre
  rcases List.prefix_or_prefix_of_prefix hpre (List.prefix_append ..) with hp | hp
  · exact h hp
  · exact h' hp

theorem exists_header_eq (r : Round) : ∃ rest, r.header = "\n--- Round " ++ rest := by
  unfold Round.header
  simp only [String.append_assoc]
  exact ⟨_, rfl⟩

theorem beginsWith_header (r : Round) : beginsWith "\n--- Round " r.header = true := by
  obtain ⟨rest, hrest⟩ := exists_header_eq r
  rw [hrest]
  exact beginsWith_append (by decide) _

theorem not_beginsWith_header (r : Round) : beginsWith "  [round limit] " r.header = false := by
  obtain ⟨rest, hrest⟩ := exists_header_eq r
  rw [hrest]
  exact not_beginsWith_append (by decide) (by decide) _

/-- The names in the line of an addition may be any text, but they do not stand at its beginning. -/
theorem not_beginsWith_addition (h : beginsWith start "  [new] " = false)
    (h' : beginsWith "  [new] " start = false) {line : String} {cs : List Clause}
    (hline : line ∈ cs.filterMap Round.additionLine?) : beginsWith start line = false := by
  obtain ⟨c, -, hc⟩ := List.mem_filterMap.mp hline
  obtain ⟨⟨left, right⟩, -, rfl⟩ := Option.map_eq_some_iff.mp hc
  simp only [String.append_assoc]
  exact not_beginsWith_append h h' _

theorem headers_append (lines lines' : List String) :
    headers (lines ++ lines') = headers lines ++ headers lines' :=
  List.filter_append ..

theorem limitReports_append (lines lines' : List String) :
    limitReports (lines ++ lines') = limitReports lines ++ limitReports lines' :=
  List.filter_append ..

theorem headers_traceLines (r : Round) : headers r.traceLines = [r.header] := by
  rw [headers, Round.traceLines, List.filter_cons_of_pos (beginsWith_header r),
    List.filter_eq_nil_iff.mpr fun line hline => ?_]
  rw [not_beginsWith_addition (by decide) (by decide) hline]
  exact Bool.false_ne_true

theorem limitReports_traceLines (r : Round) : limitReports r.traceLines = [] := by
  refine List.filter_eq_nil_iff.mpr fun line hline => ?_
  rw [Round.traceLines, List.mem_cons] at hline
  rw [Bool.not_eq_true]
  rcases hline with rfl | hline
  · exact not_beginsWith_header r
  · exact not_beginsWith_addition (by decide) (by decide) hline

theorem headers_endingLine (rounds : ℕ) (ending : Ending) :
    headers [endingLine rounds ending] = [] := by
  have hline : beginsWith "\n--- Round " (endingLine rounds ending) = false := by
    cases ending with
    | fixpoint => exact not_beginsWith_append (by decide) (by decide) _
    | stopped =>
      rw [endingLine]
      decide
    | roundLimit =>
      unfold endingLine roundLimitLine
      rw [String.append_assoc]
      exact not_beginsWith_append (by decide) (by decide) _
  rw [headers, List.filter_singleton, hline]
  rfl

theorem limitReports_endingLine (rounds : ℕ) (ending : Ending) :
    limitReports [endingLine rounds ending]
      = if ending = .roundLimit then [roundLimitLine rounds] else [] := by
  cases ending with
  | fixpoint n =>
    have hline : beginsWith "  [round limit] " (fixpointLine n) = false :=
      not_beginsWith_append (by decide) (by decide) _
    rw [limitReports, endingLine, List.filter_singleton, hline]
    rfl
  | stopped =>
    rw [endingLine, if_neg nofun]
    decide
  | roundLimit =>
    have hline : beginsWith "  [round limit] " (roundLimitLine rounds) = true := by
      unfold roundLimitLine
      rw [String.append_assoc]
      exact beginsWith_append (by decide) _
    rw [limitReports, endingLine, List.filter_singleton, hline]
    rfl

end Lines

section Counting

variable {kb : List Clause} {stop : StopCondition} {limit : Option ℤ} {before turns budget : ℕ}
  {s t : LoopState} {ending : Ending}

/-- Behind `before` rounds that others have run, the loop has written one header for each round it
has counted, and no report. -/
structure InStep (before : ℕ) (s : LoopState) : Prop where
  headers : (headers s.lines).length = before + s.done
  reports : limitReports s.lines = []

/-- The trace that the loop has ended with: a header for each round, and the count of the loop's own
rounds where it reports the limit. -/
structure Tallied (before : ℕ) (ending : Ending) (s : LoopState) : Prop where
  headers : (headers s.lines).length = before + s.done
  reports : limitReports s.lines = if ending = .roundLimit then [roundLimitLine s.done] else []

namespace InStep

theorem count (h : InStep before s) (round : Round) : InStep before (s.count round) where
  headers := by
    rw [LoopState.count, headers_append, List.length_append, h.headers, headers_traceLines]
    rfl
  reports := by
    rw [LoopState.count, limitReports_append, h.reports, limitReports_traceLines]
    rfl

theorem of_goesOn (h : InStep before s) (ht : s.turn kb stop limit = .goesOn t) :
    InStep before t := by
  unfold LoopState.turn at ht
  dsimp only at ht
  split_ifs at ht with hlimit hstop hb
  obtain rfl := LoopState.Turn.goesOn.inj ht
  exact ⟨(h.count _).headers, (h.count _).reports⟩

theorem tallied_close (h : InStep before s) (ending : Ending) :
    Tallied before ending (s.close ending) where
  headers := by
    rw [LoopState.close, headers_append, headers_endingLine, List.append_nil]
    exact h.headers
  reports := by
    rw [LoopState.close, limitReports_append, h.reports, limitReports_endingLine, List.nil_append]

theorem tallied_of_ends (h : InStep before s) (ht : s.turn kb stop limit = .ends ending t) :
    Tallied before ending t := by
  unfold LoopState.turn at ht
  dsimp only at ht
  split_ifs at ht with hlimit hstop hb
  · obtain ⟨rfl, rfl⟩ := LoopState.Turn.ends.inj ht
    exact h.tallied_close _
  · obtain ⟨rfl, rfl⟩ := LoopState.Turn.ends.inj ht
    exact h.tallied_close _
  · obtain ⟨rfl, rfl⟩ := LoopState.Turn.ends.inj ht
    exact (h.count _).tallied_close _

theorem tallied_of_loop (h : InStep before s)
    (ht : s.loop kb stop limit turns = some (ending, t)) : Tallied before ending t := by
  induction turns generalizing s with
  | zero => simp [LoopState.loop] at ht
  | succ turns ih =>
    unfold LoopState.loop at ht
    split at ht
    · rename_i hturn
      obtain ⟨rfl, rfl⟩ := Prod.mk.inj (Option.some.inj ht)
      exact h.tallied_of_ends hturn
    · rename_i hturn
      exact ih (h.of_goesOn hturn) ht

end InStep

/-- A turn of the loop when the limit leaves a round. -/
theorem turn_of_left (kb : List Clause) (stop : StopCondition)
    (h : limit.any (· ≤ Int.ofNat s.done) = false) : s.turn kb stop limit =
    if stop s.known s.reported then .ends (.stopped s.number) (s.close (.stopped s.number))
    else
      let round := Round.perform kb s.number s.known
      if round.batch.isEmpty then
        .ends (.fixpoint s.number) ((s.count round).close (.fixpoint s.number))
      else .goesOn ((s.count round).moveOn round) := by
  rw [LoopState.turn, if_neg (by rw [h]; exact Bool.false_ne_true)]

theorem loop_of_ends (h : s.turn kb stop limit = .ends ending t) (turns : ℕ) :
    s.loop kb stop limit (turns + 1) = some (ending, t) := by
  unfold LoopState.loop
  rw [h]

theorem loop_of_goesOn (h : s.turn kb stop limit = .goesOn t) (turns : ℕ) :
    s.loop kb stop limit (turns + 1) = t.loop kb stop limit turns := by
  conv_lhs => unfold LoopState.loop
  rw [h]

/-- The loop ends where the run within the rounds that are left ends. -/
theorem exists_loop_eq (s : LoopState) (hlimit : ∀ m ∈ limit, m.toNat = s.done + budget)
    (hnone : limit = none → (saturateWithin kb stop budget s.number s.reported s.known).ending
      ≠ .roundLimit) :
    let run := saturateWithin kb stop budget s.number s.reported s.known
    ∃ t, s.loop kb stop limit (budget + 1) = some (run.ending, t) ∧ t.known = run.known
      ∧ t.done = s.done + run.rounds.length
      ∧ t.lines = s.lines ++ run.rounds.flatMap Round.traceLines
          ++ [endingLine (s.done + run.rounds.length) run.ending] := by
  induction budget generalizing s with
  | zero =>
    have hreached : limit.any (· ≤ Int.ofNat s.done) = true := by
      rcases limit with _ | m
      · exact absurd rfl (hnone rfl)
      · have hm := hlimit m rfl
        simp only [Option.any_some, decide_eq_true_eq, Int.ofNat_eq_natCast]
        omega
    have hturn : s.turn kb stop limit = .ends .roundLimit (s.close .roundLimit) := by
      rw [LoopState.turn, if_pos hreached]
    refine ⟨_, loop_of_ends hturn 0, rfl, rfl, ?_⟩
    simp [LoopState.close, saturateWithin]
  | succ budget ih =>
    have hleft : limit.any (· ≤ Int.ofNat s.done) = false := by
      rcases limit with _ | m
      · rfl
      · have hm := hlimit m rfl
        simp only [Option.any_some, decide_eq_false_iff_not, Int.ofNat_eq_natCast]
        omega
    have hturn := turn_of_left kb stop hleft
    unfold saturateWithin at hnone ⊢
    dsimp only at hnone hturn ⊢
    split_ifs at hnone hturn ⊢ with hstop hb
    · refine ⟨_, loop_of_ends hturn _, rfl, rfl, ?_⟩
      simp [LoopState.close]
    · refine ⟨_, loop_of_ends hturn _, rfl, rfl, ?_⟩
      simp [LoopState.close, LoopState.count]
    · -- the rest of the run counts on from one more
      obtain ⟨t, ht, hknown, hdone, hlines⟩ := ih ((s.count _).moveOn _) (fun m hm => by
        have := hlimit m hm
        simp only [LoopState.moveOn, LoopState.count]
        omega) hnone
      refine ⟨t, (loop_of_goesOn hturn _).trans ht, hknown, ?_, ?_⟩
      · rw [hdone]
        simp only [LoopState.moveOn, LoopState.count, Run.rounds_preceded, List.length_cons]
        omega
      · rw [hlines]
        simp [LoopState.moveOn, LoopState.count, Nat.add_assoc, Nat.add_comm 1]

end Counting

section Traces

variable {kb cs : List Clause} {stop : StopCondition} {limit : Option ℤ} {first : ℤ}
  {known : ClauseSet} {before reported : ℕ} {lines : List String}

theorem traceLines_append (es es' : List Event) :
    Event.traceLines (es ++ es') = Event.traceLines es ++ Event.traceLines es' :=
  List.filterMap_append

theorem traceLines_map_traced (lines : List String) :
    Event.traceLines (lines.map .traced) = lines := by
  rw [Event.traceLines, List.filterMap_map]
  exact List.filterMap_some

theorem traceLines_summary (r : Round) : Event.traceLines r.summary = [] := by
  unfold Round.summary
  split <;> rfl

theorem traceLines_endingEvents (run : Run) :
    Event.traceLines run.endingEvents = [endingLine run.rounds.length run.ending] := by
  rcases run with ⟨known, rounds, ending⟩
  cases ending <;> rfl

theorem traceLines_flatMap (rounds : List Round) :
    Event.traceLines (rounds.flatMap fun r => r.traceLines.map .traced ++ r.summary)
      = rounds.flatMap Round.traceLines := by
  induction rounds with
  | nil => rfl
  | cons r rounds ih =>
    rw [List.flatMap_cons, List.flatMap_cons, traceLines_append, traceLines_append,
      traceLines_map_traced, traceLines_summary, List.append_nil, ih]

theorem traceLines_events (run : Run) : Event.traceLines run.events
    = run.rounds.flatMap Round.traceLines ++ [endingLine run.rounds.length run.ending] := by
  rw [Run.events, traceLines_append, traceLines_flatMap, traceLines_endingEvents]

variable (kb : List Clause) (known : ClauseSet) (limit : Option ℤ) (stop : StopCondition)
  (first : ℤ) (reported : ℕ)

/-- The loop that counts its rounds makes the same run and writes its trace behind `lines`. -/
theorem exists_loop_saturate (lines : List String) :
    let run := saturate kb known limit stop first reported
    ∃ turns t, LoopState.loop kb stop limit turns ⟨known, first, 0, reported, lines⟩
        = some (run.ending, t)
      ∧ t.known = run.known ∧ t.done = run.rounds.length
      ∧ t.lines = lines ++ Event.traceLines run.events := by
  intro run
  have hlimit : ∀ m ∈ limit, m.toNat = 0 + roundBudget kb known limit := by
    rintro m rfl
    rw [roundBudget, Nat.zero_add]
  have hnone : limit = none → run.ending ≠ .roundLimit := by
    intro h
    subst h
    exact ending_saturate_ne_roundLimit
  obtain ⟨t, ht, hknown, hdone, hlines⟩ :=
    exists_loop_eq ⟨known, first, 0, reported, lines⟩ hlimit hnone
  rw [Nat.zero_add] at hdone hlines
  refine ⟨_, t, ht, hknown, hdone, ?_⟩
  rw [hlines, traceLines_events, List.append_assoc]
  rfl

theorem inStep_start : InStep 0 ⟨known, first, 0, reported, []⟩ :=
  ⟨rfl, rfl⟩

theorem counts_saturate {before : ℕ} {lines : List String}
    (h : InStep before ⟨known, first, 0, reported, lines⟩) :
    let run := saturate kb known limit stop first reported
    (headers (lines ++ Event.traceLines run.events)).length = before + run.rounds.length
      ∧ limitReports (lines ++ Event.traceLines run.events)
        = if run.ending = .roundLimit then [roundLimitLine run.rounds.length] else [] := by
  intro run
  obtain ⟨turns, t, ht, -, hdone, hlines⟩ :=
    exists_loop_saturate kb known limit stop first reported lines
  rw [← hlines, ← hdone]
  have htallied := h.tallied_of_loop ht
  exact ⟨htallied.headers, htallied.reports⟩

end Traces

section Closures

theorem traceLines_events_closure {c : Closure} {r : Round} (h : c.opening = some r) :
    Event.traceLines c.events
      = r.traceLines ++ Event.traceLines (c.continuationEvents r.number) := by
  have hsize : Event.traceLines [c.kb.sizeRecord] = [] := rfl
  rw [Closure.events, h, ← List.singleton_append, traceLines_append, hsize, List.nil_append,
    traceLines_append, traceLines_append, traceLines_map_traced]
  exact List.append_nil _

theorem inStep_opening (r : Round) (known : ClauseSet) (number : ℤ) (reported : ℕ) :
    InStep 1 ⟨known, number, 0, reported, r.traceLines⟩ where
  headers := congrArg List.length (headers_traceLines r)
  reports := limitReports_traceLines r

/-- No round is allowed, or the opening round finds nothing, or a run of `saturate` follows it. -/
theorem closure_cases (cs : List Clause) (limit : Option ℤ) (stop : StopCondition) :
    let kb := KnowledgeBase.ofList cs
    closure cs limit stop = ⟨kb, none, none⟩
      ∨ (∃ r, closure cs limit stop = ⟨kb, some r, none⟩)
      ∨ ∃ (r : Round) (rest : Option ℤ) (reported : ℕ), closure cs limit stop
          = ⟨kb, some r, some (saturate kb.toList r.known rest stop 2 reported)⟩ := by
  intro kb
  unfold closure
  dsimp only
  split_ifs with hlimit hb
  · exact .inl rfl
  · exact .inr (.inl ⟨_, rfl⟩)
  · exact .inr (.inr ⟨_, _, _, rfl⟩)

theorem rounds_of_continuation (kb : KnowledgeBase) (r : Round) (run : Run) :
    Closure.rounds ⟨kb, some r, some run⟩ = r :: run.rounds := by
  simp [Closure.rounds]

theorem counts_closure (cs : List Clause) (limit : Option ℤ) (stop : StopCondition) :
    let c := closure cs limit stop
    let lines := Event.traceLines c.events
    (headers lines).length = c.rounds.length
      ∧ limitReports lines = if c.ending = .roundLimit ∧ c.rounds ≠ []
          then [roundLimitLine (c.rounds.length - 1)] else [] := by
  dsimp only
  rcases closure_cases cs limit stop with hc | ⟨r, hc⟩ | ⟨r, rest, reported, hc⟩
  · rw [hc]
    exact ⟨rfl, (if_neg fun h => h.2 rfl).symm⟩
  · obtain ⟨hheaders, hreports⟩ := (inStep_opening r ∅ 2 0).tallied_close (.fixpoint r.number)
    rw [hc, traceLines_events_closure rfl]
    exact ⟨hheaders, hreports.trans (if_neg fun h => nomatch h.1).symm⟩
  · -- the loop begins to count behind the header of the opening round
    obtain ⟨hheaders, hreports⟩ := counts_saturate (KnowledgeBase.ofList cs).toList r.known rest
      stop 2 reported (inStep_opening r r.known 2 reported)
    rw [hc, traceLines_events_closure rfl, rounds_of_continuation, List.length_cons,
      Nat.add_sub_cancel]
    refine ⟨hheaders.trans (Nat.add_comm ..), hreports.trans ?_⟩
    simp [Closure.ending]

end Closures

/-- The loop that counts the rounds it has run makes the run of `saturate` and writes its trace. The
trace has one header for each round. If the limit ends the run, and only then, it reports that, once
and with the number of these rounds. The trace of a closure has one header for each round too, but
the number that it reports is one less, as the opening round is not counted; where the limit allows
no round at all, nothing is reported. -/
theorem limitReports_trace (kb : List Clause) (known : ClauseSet) (limit : Option ℤ)
    (stop : StopCondition) (first : ℤ) (reported : ℕ) :
    let run := saturate kb known limit stop first reported
    let lines := Event.traceLines run.events
    let c := closure kb limit stop
    let lines' := Event.traceLines c.events
    ((∃ turns t, LoopState.loop kb stop limit turns ⟨known, first, 0, reported, []⟩
          = some (run.ending, t) ∧ t.known = run.known ∧ t.done = run.rounds.length
          ∧ t.lines = lines)
        ∧ (headers lines).length = run.rounds.length
        ∧ limitReports lines = if run.ending = .roundLimit
            then [roundLimitLine (headers lines).length] else [])
      ∧ (headers lines').length = c.rounds.length
      ∧ limitReports lines' = if c.ending = .roundLimit ∧ c.rounds ≠ []
          then [roundLimitLine ((headers lines').length - 1)] else [] := by
  intro run lines c lines'
  have hloop := exists_loop_saturate kb known limit stop first reported []
  obtain ⟨hheaders, hreports⟩ :=
    counts_saturate kb known limit stop first reported (inStep_start known first reported)
  rw [List.nil_append, Nat.zero_add] at hheaders
  rw [List.nil_append, ← hheaders] at hreports
  obtain ⟨hheaders', hreports'⟩ := counts_closure kb limit stop
  rw [← hheaders'] at hreports'
  exact ⟨⟨hloop, hheaders, hreports⟩, hheaders', hreports'⟩

/-- The clauses derive `B` in the opening round, and the limit allows no other. -/
theorem limitReports_opening_round :
    let c := closure [{ literals := [⟨true, "A"⟩] }, { literals := [⟨false, "A"⟩, ⟨true, "B"⟩] }]
      (some 1)
    let lines := Event.traceLines c.events
    c.ending = .roundLimit ∧ c.rounds.length = 1 ∧ (headers lines).length = 1
      ∧ limitReports lines = [roundLimitLine 0] ∧ roundLimitLine 0 ≠ roundLimitLine 1 := by
  decide

end Resolution
