import Resolution.KnowledgeBase.Reports
import Resolution.Proofs.KnowledgeBases
import Resolution.Proofs.Tokens

/-!
# Loading stops at the first line that is rejected

A line with text that is no comment is read with or without the blanks around it, so whether it is
accepted is a matter of the line as it stands. Either all of these lines are read, each as the
clause that is written on it, or the error is the first that is not (`readLines_text_cases`). That
the clauses come in normal form is not seen in the knowledge base, which takes normal forms itself.

All lines are read before a clause is added, so what is reported is reported by a load that
succeeds: adding the clauses reports what is dropped from the knowledge base, in this order
(`Reporting.run_foldlM_add`), and a load that fails has reported nothing.
-/

namespace Resolution

namespace Reporting

variable {lines : List Line}

theorem run_add (known : ClauseSet) (c : Clause) (reported : List Clause) :
    (add known c).run.run reported
      = (.ok (KnowledgeBase.add ⟨known, reported⟩ c).clauses,
          (KnowledgeBase.add ⟨known, reported⟩ c).dropped) := by
  unfold add KnowledgeBase.add
  dsimp only
  split_ifs <;> rfl

theorem run_foldlM_add : ∀ (cs : List Clause) (known : ClauseSet) (reported : List Clause),
    (cs.foldlM add known).run.run reported
      = (.ok (cs.foldl KnowledgeBase.add ⟨known, reported⟩).clauses,
          (cs.foldl KnowledgeBase.add ⟨known, reported⟩).dropped)
  | [], _, _ => rfl
  | c :: cs, known, reported => by
    have ih := run_foldlM_add cs (KnowledgeBase.add ⟨known, reported⟩ c).clauses
      (KnowledgeBase.add ⟨known, reported⟩ c).dropped
    rw [List.foldlM_cons, List.foldl_cons, ExceptT.run_bind, StateT.run_bind, run_add]
    exact ih

theorem outcome_load_of_ok {reading : Reading} (h : Reading.ofLines lines = .ok reading) :
    (load lines).outcome = (.ok reading.kb.clauses, reading.kb.dropped) := by
  obtain ⟨cs, hcs, rfl⟩ := map_eq_ok_iff.mp h
  rw [outcome, load, hcs]
  exact run_foldlM_add cs ∅ []

theorem outcome_load_of_error {e : LineError} (h : Reading.ofLines lines = .error e) :
    (load lines).outcome = (.error e, []) := by
  rw [Reading.ofLines] at h
  rw [outcome, load]
  generalize readLines 1 lines = read at h ⊢
  rcases read with e' | cs
  · obtain rfl := Except.error.inj h
    rfl
  · cases h

end Reporting

section Lines

/-- The line has text that is no comment. -/
def Active (line : String) : Prop :=
  (Text.trim line).toList ≠ [] ∧ (Text.trim line).toList.head? ≠ some ';'

instance (line : String) : Decidable (Active line) :=
  inferInstanceAs (Decidable (_ ∧ _))

theorem active_iff {line : String} : Active line ↔ isSkipped (Text.trim line) = false := by
  unfold Active isSkipped
  rcases (Text.trim line).toList with _ | ⟨c, cs⟩ <;> simp

/-- The first line that is rejected is `line`, with the error `e`; `front` are those before it. -/
structure RejectedAfter (lines front : List String) (line : String) (e : ReadError) : Prop where
  split : ∃ back, lines = front ++ line :: back
  accepted : ∀ l ∈ front, Active l → ∃ c, Clause.read l = .ok c
  active : Active line
  rejected : Clause.read line = .error e

variable {line l : String} {lines front : List String} {c : Clause} {e : ReadError}

theorem RejectedAfter.cons (h : RejectedAfter lines front line e)
    (hl : Active l → ∃ c, Clause.read l = .ok c) :
    RejectedAfter (l :: lines) (l :: front) line e where
  split := h.split.imp fun _ hback => congrArg (l :: ·) hback
  accepted := List.forall_mem_cons.mpr ⟨hl, h.accepted⟩
  active := h.active
  rejected := h.rejected

theorem readLines_of_not_active (h : ¬ Active line) (number : ℕ) (ls : List Line) :
    readLines number (.text line :: ls) = readLines (number + 1) ls := by
  have hskip : isSkipped (Text.trim line) = true := by simpa [active_iff] using h
  rw [readLines, if_pos hskip]

theorem readLines_of_read_ok (h : Active line) (hread : Clause.read line = .ok c) (number : ℕ)
    (ls : List Line) : readLines number (.text line :: ls)
      = (readLines (number + 1) ls).map (c :: ·) := by
  rw [readLines, active_iff.mp h, Clause.read_trim, hread, if_neg Bool.false_ne_true]

theorem readLines_of_read_error (h : Active line) (hread : Clause.read line = .error e)
    (number : ℕ) (ls : List Line) :
    readLines number (.text line :: ls) = .error ⟨.clause e, number, line⟩ := by
  rw [readLines, active_iff.mp h, Clause.read_trim, hread, if_neg Bool.false_ne_true]

/-- Either all active lines are read, or the first that is rejected is the error. -/
theorem readLines_text_cases : ∀ (number : ℕ) (lines : List String),
    (∃ cs : List Clause, (lines.filter (Active ·)).map Clause.written = cs.map .ok
        ∧ readLines number (lines.map .text) = .ok (cs.map Clause.standardize))
      ∨ ∃ front line e, RejectedAfter lines front line e
          ∧ readLines number (lines.map .text) = .error ⟨.clause e, number + front.length, line⟩
  | number, [] => .inl ⟨[], rfl, rfl⟩
  | number, line :: lines => by
    have hnumber (n : ℕ) : number + 1 + n = number + (n + 1) := by omega
    rw [List.map_cons, List.filter_cons]
    by_cases hactive : Active line
    · rcases hread : Clause.read line with e | c
      · exact .inr ⟨[], line, e, ⟨⟨lines, rfl⟩, by simp, hactive, hread⟩,
          readLines_of_read_error hactive hread number _⟩
      · obtain ⟨d, hd, rfl⟩ := Clause.read_eq_ok_iff.mp hread
        rw [readLines_of_read_ok hactive hread, if_pos (decide_eq_true hactive)]
        rcases readLines_text_cases (number + 1) lines with
          ⟨cs, hcs, hlines⟩ | ⟨front, l, e, hfirst, hlines⟩
        · exact .inl ⟨d :: cs, by rw [List.map_cons, hd, hcs, List.map_cons], by rw [hlines]; rfl⟩
        · refine .inr ⟨line :: front, l, e, hfirst.cons fun _ => ⟨_, hread⟩, ?_⟩
          rw [hlines, hnumber front.length]
          rfl
    · rw [readLines_of_not_active hactive, if_neg (by simpa using hactive)]
      rcases readLines_text_cases (number + 1) lines with
        ⟨cs, hcs, hlines⟩ | ⟨front, l, e, hfirst, hlines⟩
      · exact .inl ⟨cs, hcs, hlines⟩
      · refine .inr ⟨line :: front, l, e, hfirst.cons fun h => absurd h hactive, ?_⟩
        rw [hlines, hnumber front.length]
        rfl

theorem exists_read_of_written {cs : List Clause}
    (h : (lines.filter (Active ·)).map Clause.written = cs.map .ok) (hl : l ∈ lines)
    (hactive : Active l) : ∃ c, Clause.read l = .ok c := by
  have hmem : Clause.written l ∈ cs.map .ok := by
    rw [← h]
    exact List.mem_map_of_mem (List.mem_filter.mpr ⟨hl, decide_eq_true hactive⟩)
  obtain ⟨c, -, hc⟩ := List.mem_map.mp hmem
  exact ⟨_, Clause.read_eq_ok_iff.mpr ⟨c, hc.symm, rfl⟩⟩

theorem RejectedAfter.not_read (h : RejectedAfter lines front line e) :
    ∃ l ∈ lines, Active l ∧ ¬ ∃ c, Clause.read l = .ok c := by
  obtain ⟨back, hback⟩ := h.split
  refine ⟨line, by simp [hback], h.active, ?_⟩
  simp [h.rejected]

end Lines

/-- If all active lines are clauses, the knowledge base is that of the clauses as they are written,
and what is reported is their normal forms that are empty, line by line. Otherwise the first active
line that is no clause is the error, with its number among all lines and as it stands, and nothing
has been reported. -/
theorem load_lines (lines : List String) :
    let accepted := ∀ line ∈ lines, Active line → ∃ c, Clause.read line = .ok c
    let outcome := (Reporting.load (lines.map .text)).outcome
    (accepted → ∃ cs : List Clause, (lines.filter (Active ·)).map Clause.written = cs.map .ok
        ∧ Reading.ofLines (lines.map .text) = .ok ⟨cs.length, .ofList cs⟩
        ∧ outcome = (.ok (KnowledgeBase.ofList cs).clauses,
            (cs.map Clause.standardize).filter Clause.isEmpty))
      ∧ (¬ accepted → ∃ front line e, RejectedAfter lines front line e
          ∧ Reading.ofLines (lines.map .text) = .error ⟨.clause e, front.length + 1, line⟩
          ∧ outcome = (.error ⟨.clause e, front.length + 1, line⟩, [])) := by
  intro accepted outcome
  rcases readLines_text_cases 1 lines with ⟨cs, hcs, hlines⟩ | ⟨front, line, e, hfirst, hlines⟩
  · have hreading : Reading.ofLines (lines.map .text) = .ok ⟨cs.length, .ofList cs⟩ := by
      rw [Reading.ofLines, hlines, ← KnowledgeBase.ofList_map_standardize cs]
      simp [Except.map]
    have houtcome := Reporting.outcome_load_of_ok hreading
    rw [KnowledgeBase.dropped_ofList] at houtcome
    exact ⟨fun _ => ⟨cs, hcs, hreading, houtcome⟩,
      fun h => absurd (fun l => exists_read_of_written hcs) h⟩
  · have hreading : Reading.ofLines (lines.map .text)
        = .error ⟨.clause e, front.length + 1, line⟩ := by
      rw [Reading.ofLines, hlines, Nat.add_comm]
      rfl
    have hnot : ¬ accepted := fun haccepted => by
      obtain ⟨l, hl, hactive, hnone⟩ := hfirst.not_read
      exact hnone (haccepted l hl hactive)
    exact ⟨fun h => absurd h hnot, fun _ => ⟨front, line, e, hfirst, hreading,
      Reporting.outcome_load_of_error hreading⟩⟩

/-- Two of four clauses have an empty normal form, one because its literals strip each other. In the
other list the fourth line is the first that is no clause, and the empty clause above it is not
reported. -/
theorem load_lines_mixed :
    let lines := ["; implications", " (B A) ", "", "( )", "((NOT A) A)\n", "(A B B)"]
    let others := ["(A)", "; (", "()", " (B (C))", "(A"]
    let loaded := (Reporting.load (lines.map .text)).outcome
    let refused := (Reporting.load (others.map .text)).outcome
    (loaded = (.ok (.ofList [⟨[⟨true, "A"⟩, ⟨true, "B"⟩], [], 0⟩]), [⟨[], [], 0⟩, ⟨[], [], 0⟩])
        ∧ (∀ line ∈ lines, Active line → ∃ c, Clause.read line = .ok c)
        ∧ ∃ cs : List Clause, (lines.filter (Active ·)).map Clause.written = cs.map .ok
          ∧ Reading.ofLines (lines.map .text) = .ok ⟨cs.length, .ofList cs⟩
          ∧ loaded = (.ok (KnowledgeBase.ofList cs).clauses,
              (cs.map Clause.standardize).filter Clause.isEmpty))
      ∧ refused = (.error ⟨.clause .badNesting, 4, " (B (C))"⟩, [])
        ∧ (¬ ∀ line ∈ others, Active line → ∃ c, Clause.read line = .ok c)
        ∧ ∃ front line e, RejectedAfter others front line e
          ∧ Reading.ofLines (others.map .text) = .error ⟨.clause e, front.length + 1, line⟩
          ∧ refused = (.error ⟨.clause e, front.length + 1, line⟩, []) := by
  intro lines others loaded refused
  have hwritten : (lines.filter (Active ·)).map Clause.written
      = [⟨[⟨true, "B"⟩, ⟨true, "A"⟩], [], 0⟩, ⟨[], [], 0⟩, ⟨[⟨false, "A"⟩, ⟨true, "A"⟩], [], 0⟩,
        ⟨[⟨true, "A"⟩, ⟨true, "B"⟩, ⟨true, "B"⟩], [], 0⟩].map .ok := by decide
  have hread : readLines 1 (lines.map .text) = .ok [⟨[⟨true, "A"⟩, ⟨true, "B"⟩], [], 0⟩,
      ⟨[], [], 0⟩, ⟨[], [], 0⟩, ⟨[⟨true, "A"⟩, ⟨true, "B"⟩], [], 0⟩] := rfl
  have hloaded := Reporting.outcome_load_of_ok (congrArg (Except.map _) hread)
  have haccepted : ∀ line ∈ lines, Active line → ∃ c, Clause.read line = .ok c :=
    fun _ => exists_read_of_written hwritten
  have hrejected : ¬ ∀ line ∈ others, Active line → ∃ c, Clause.read line = .ok c := by
    intro h
    obtain ⟨c, hc⟩ := h " (B (C))" (by decide) (by decide)
    have herror : Clause.read " (B (C))" = .error .badNesting := rfl
    rw [herror] at hc
    cases hc
  exact ⟨⟨hloaded, haccepted, (load_lines lines).1 haccepted⟩, rfl, hrejected,
    (load_lines others).2 hrejected⟩

end Resolution
