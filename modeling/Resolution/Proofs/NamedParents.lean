import Resolution.Proofs.FirstContradiction
import Resolution.Proofs.Listings
import Resolution.Proofs.Provenance

/-!
# Reported clauses name their parents

The trace says of every clause that is added which two clauses it comes from, and a warning says it
of the first contradiction. Both look the names up in the source of the clause, and find them there:
what a round adds or reports is a resolvent, and resolvents name their parents
(`namesParents_of_mem_rounds_saturate`).

A list of clauses may hold one whose normal form is empty, which is reported without parents. But
not if it was read from a file: the empty ones have been dropped then, and from a knowledge base
nothing more is dropped (`empties_closure_of_ofBytes`).
-/

namespace Resolution

/-- The source of the clause is the names of a clause of the knowledge base and of a known one. -/
def NamesParents (kb known : List Clause) (c : Clause) : Prop :=
  ∃ k ∈ kb, ∃ q ∈ known, c.source = [k.name, q.name]

section Lookup

variable {kb known : List Clause} {c : Clause}

theorem NamesParents.isSome_parents? (h : NamesParents kb known c) : c.parents?.isSome = true := by
  obtain ⟨k, -, q, -, hsource⟩ := h
  rw [Clause.parents?, hsource]
  rfl

theorem NamesParents.isSome_additionLine? (h : NamesParents kb known c) :
    (Round.additionLine? c).isSome = true := by
  rw [Round.additionLine?, Option.isSome_map]
  exact h.isSome_parents?

end Lookup

section Runs

variable {kb cs : List Clause} {known : ClauseSet} {limit : Option ℤ} {stop : StopCondition}
  {first : ℤ} {reported : ℕ} {round : Round} {c : Clause}

theorem namesParents_of_mem_rounds_saturate
    (hround : round ∈ (saturate kb known limit stop first reported).rounds)
    (hc : c ∈ round.added) :
    NamesParents kb (saturate kb known limit stop first reported).known.toList c := by
  obtain ⟨n, -, hend⟩ := exists_saturate_endsAfter kb known limit stop first reported
  obtain ⟨m, hm, hrounds⟩ := hend.exists_rounds_eq
  rw [hrounds] at hround
  obtain ⟨i, hi, rfl⟩ := (mem_roundsUpTo kb first known).mp hround
  obtain ⟨k, hk, q, hq, hsource, -⟩ := exists_parents_of_mem_added hc
  refine ⟨k, hk, q, ?_, hsource⟩
  rw [hend.known_eq]
  exact (stage_isPrefix kb first known (by omega)).subset hq

theorem namesParents_of_mem_rounds_closure (hround : round ∈ (closure cs limit stop).rounds)
    (hc : c ∈ round.added) :
    NamesParents (KnowledgeBase.ofList cs).toList (closure cs limit stop).toList c := by
  have hrounds := congrArg Run.rounds (run_closure cs limit stop)
  have hknown := congrArg Run.known (run_closure cs limit stop)
  have hround' : round ∈ (closure cs limit stop).run.rounds := hround
  rw [hrounds] at hround'
  have hnames := namesParents_of_mem_rounds_saturate hround' hc
  rwa [← hknown] at hnames

end Runs

section Files

open CommandLine

variable {content : List UInt8} {reading : Reading} {c : Clause}

/-- The empty clauses of a file are dropped without parents. -/
theorem source_of_mem_dropped (h : Reading.ofBytes content = .ok reading)
    (hc : c ∈ reading.kb.dropped) : c.source = [] := by
  obtain ⟨cs, hcs, rfl⟩ := map_eq_ok_iff.mp h
  rw [KnowledgeBase.dropped_ofList] at hc
  obtain ⟨d, hd, rfl⟩ := List.mem_map.mp (List.mem_of_mem_filter hc)
  exact (source_step_of_mem_readLines hcs hd).1

theorem empties_closure_of_ofBytes (h : Reading.ofBytes content = .ok reading)
    (limit : Option ℤ) (stop : StopCondition) :
    (closure reading.kb.toList limit stop).empties
      = (closure reading.kb.toList limit stop).contradictions := by
  rw [Closure.empties, kb_closure, dropped_ofList_kb h, List.nil_append]

theorem exists_parents_of_mem_empties (h : Reading.ofBytes content = .ok reading)
    {limit : Option ℤ} {stop : StopCondition}
    (hc : c ∈ (closure reading.kb.toList limit stop).empties) :
    c.isEmpty = true ∧ ∃ k ∈ reading.kb.toList,
      ∃ q ∈ (closure reading.kb.toList limit stop).toList, c ∈ resolve k q := by
  rw [empties_closure_of_ofBytes h] at hc
  obtain ⟨k, hk, q, hq, hr, hempty⟩ := exists_parents_of_mem_contradictions hc
  rw [toList_ofList_kb h] at hk
  exact ⟨hempty, k, hk, q, hq, hr⟩

end Files

/-- What the program collects as contradictions are empty resolvents with the names of two parents,
whatever file it has loaded and whatever its settings are; none of them was dropped on the way to a
knowledge base. And every clause that a round of a run or of a closure adds has the names of two
parents. So the names can be looked up wherever a warning or the trace does. -/
theorem reports_name_parents :
    (∀ (content : List UInt8) (reading : Reading) (s : CommandLine.Settings),
      Reading.ofBytes content = .ok reading →
        let c := s.closure reading.kb
        c.kb.dropped = []
          ∧ ∀ r ∈ c.empties, r.isEmpty = true ∧ r ∉ reading.kb.dropped
            ∧ (∃ k ∈ reading.kb.toList, ∃ q ∈ c.toList, r ∈ resolve k q)
            ∧ NamesParents reading.kb.toList c.toList r ∧ r.parents?.isSome = true)
    ∧ (∀ (kb : List Clause) (known : ClauseSet) (limit : Option ℤ) (stop : StopCondition)
        (first : ℤ) (reported : ℕ),
      let run := saturate kb known limit stop first reported
      ∀ round ∈ run.rounds, ∀ c ∈ round.added,
        NamesParents kb run.known.toList c ∧ (Round.additionLine? c).isSome = true)
    ∧ ∀ (cs : List Clause) (limit : Option ℤ) (stop : StopCondition),
      let c := closure cs limit stop
      ∀ round ∈ c.rounds, ∀ d ∈ round.added,
        NamesParents c.kb.toList c.toList d ∧ (Round.additionLine? d).isSome = true := by
  refine ⟨fun content reading s h => ?_, fun kb known limit stop first reported => ?_,
    fun cs limit stop => ?_⟩
  · intro c
    have hkb : c.kb.dropped = [] := by
      rw [show c.kb = KnowledgeBase.ofList reading.kb.toList from kb_closure]
      exact CommandLine.dropped_ofList_kb h
    refine ⟨hkb, fun r hr => ?_⟩
    obtain ⟨hempty, k, hk, q, hq, hmem⟩ := exists_parents_of_mem_empties h hr
    have hsource : r.source = [k.name, q.name] := source_of_mem_resolve hmem
    have hnames : NamesParents reading.kb.toList c.toList r := ⟨k, hk, q, hq, hsource⟩
    refine ⟨hempty, fun hdropped => ?_, ⟨k, hk, q, hq, hmem⟩, hnames, hnames.isSome_parents?⟩
    rw [source_of_mem_dropped h hdropped] at hsource
    exact absurd hsource (by simp)
  · intro run round hround c hc
    have hnames := namesParents_of_mem_rounds_saturate hround hc
    exact ⟨hnames, hnames.isSome_additionLine?⟩
  · intro c round hround d hd
    have hnames := namesParents_of_mem_rounds_closure hround hd
    rw [← kb_closure] at hnames
    exact ⟨hnames, hnames.isSome_additionLine?⟩

/-- A file with an empty clause, in which `B` is derived and contradicted. The empty clause of the
file is not among those that are collected. -/
theorem reports_name_parents_dropped :
    let content := Utf8.encode "()\n(A)\n((not A) B)\n((not B))\n"
    let reading : Reading := ⟨4, .ofList [⟨[], [], 0⟩, ⟨[⟨true, "A"⟩], [], 0⟩,
      ⟨[⟨false, "A"⟩, ⟨true, "B"⟩], [], 0⟩, ⟨[⟨false, "B"⟩], [], 0⟩]⟩
    let s : CommandLine.Settings := { verbose := true, reportEmpty := true, stopOnEmpty := true }
    let c := s.closure reading.kb
    let r : Clause := ⟨[], ["A", "(not A)"], 0⟩
    let d : Clause := ⟨[⟨true, "B"⟩], ["A", "(not A) B"], 1⟩
    Reading.ofBytes content = .ok reading ∧ reading.kb.dropped = [⟨[], [], 0⟩]
      ∧ c.kb.dropped = [] ∧ r ∈ c.empties ∧ r ∉ reading.kb.dropped
      ∧ NamesParents reading.kb.toList c.toList r
      ∧ (∃ round ∈ c.rounds, d ∈ round.added) ∧ NamesParents c.kb.toList c.toList d := by
  intro content reading s c r d
  have hloads : Reading.ofBytes content = .ok reading := rfl
  have hr : r ∈ c.empties := by decide
  have hd : ∃ round ∈ c.rounds, d ∈ round.added := by decide
  obtain ⟨hfile, -, hclosure⟩ := reports_name_parents
  obtain ⟨hkb, hempties⟩ := hfile content reading s hloads
  obtain ⟨-, hdropped, -, hnames, -⟩ := hempties r hr
  obtain ⟨round, hround, hadded⟩ := hd
  exact ⟨hloads, by decide, hkb, hr, hdropped, hnames, ⟨round, hround, hadded⟩,
    (hclosure reading.kb.toList s.maxRounds s.condition round hround d hadded).1⟩

end Resolution
