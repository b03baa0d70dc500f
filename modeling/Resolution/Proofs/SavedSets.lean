import Resolution.Proofs.Checkpoints
import Resolution.Proofs.JsonDocuments

/-!
# Saved sets

The document of a set has only strings, integers, lists and objects with fixed keys, five deep at
most (`document_ofSet`), so its text is read back as the document, and the document as the set.
Atoms and sources may be any strings. The only integers are the steps (`numerals_ofSet`), so with a
limit on digits it is a long step, and nothing else, that keeps a saved set from being loaded.
-/

namespace Resolution

namespace Json

theorem itemNumerals_eq_flatMap (vs : List Json) : itemNumerals vs = vs.flatMap numerals := by
  induction vs with
  | nil => rfl
  | cons v vs ih => rw [itemNumerals, ih, List.flatMap_cons]

theorem excess?_some_eq_none_iff {limit digits : ℕ} :
    excess? (some limit) digits = none ↔ digits ≤ limit := by
  simp [excess?]

end Json

namespace Checkpoint

open Json

section Documents

variable (room : ℕ)

theorem document_texts (ts : List String) : Document (room + 1) (.arr (ts.map .text)) := by
  refine .arr fun v hv => ?_
  obtain ⟨t, -, rfl⟩ := List.mem_map.1 hv
  exact .text t

theorem document_literals (ls : List Literal) :
    Document (room + 2) (.arr (ls.map literalJson)) := by
  refine .arr fun v hv => ?_
  obtain ⟨l, -, rfl⟩ := List.mem_map.1 hv
  exact document_texts room [if l.positive then "+" else "-", l.atom]

theorem document_clauseJson (c : Clause) : Document (room + 3) (clauseJson c) := by
  have hkeys : [("literals" : CodeText), "source", "step"].Nodup := by decide
  refine .obj hkeys (by simp) fun f hf => ?_
  simp only [List.mem_cons, List.not_mem_nil, or_false] at hf
  rcases hf with rfl | rfl | rfl
  · exact document_literals room c.literals
  · exact document_texts (room + 1) c.source
  · exact .int c.step

theorem document_ofSet (s : ClauseSet) : Document (room + 5) (ofSet s) := by
  refine .obj (by simp) (by simp) fun f hf => ?_
  obtain rfl := List.mem_singleton.1 hf
  refine .arr fun v hv => ?_
  obtain ⟨c, -, rfl⟩ := List.mem_map.1 hv
  exact document_clauseJson room c

end Documents

theorem numerals_ofSet (s : ClauseSet) : (ofSet s).numerals = s.toList.map Clause.step := by
  have htext (ts : List String) : itemNumerals (ts.map .text) = [] := by
    simp [itemNumerals_eq_flatMap, List.flatMap_map, Json.text, numerals]
  have hliterals (ls : List Literal) : itemNumerals (ls.map literalJson) = [] := by
    simp [itemNumerals_eq_flatMap, List.flatMap_map, literalJson, Json.text, numerals]
  have hclause (c : Clause) : (clauseJson c).numerals = [c.step] := by
    simp [clauseJson, numerals, fieldNumerals, htext, hliterals]
  simp only [ofSet, numerals, fieldNumerals, itemNumerals_eq_flatMap, List.flatMap_map, hclause,
    List.append_nil, ← List.map_eq_flatMap]

theorem load_save_eq_ok_iff (s : ClauseSet) (limit : Option ℕ) :
    load (save s) limit = .ok s ↔ ∀ c ∈ s.toList, excess? limit (digitCount c.step) = none := by
  have hparse : parse (save s) limit = outcome limit (s.toList.map Clause.step) (ofSet s) := by
    rw [save, parse_print limit (document_ofSet 984 s), numerals_ofSet]
  have hok : parse (save s) limit = .ok (ofSet s)
      ↔ ∀ c ∈ s.toList, excess? limit (digitCount c.step) = none := by
    rw [hparse, outcome_eq_ok_iff, List.forall_mem_map, and_iff_left rfl]
  rw [← hok, load]
  constructor
  · intro h
    rcases hread : parse (save s) limit with e | document
    · simp [hread] at h
    · rw [(outcome_eq_ok_iff limit).1 (hparse.symm.trans hread) |>.2]
  · intro h
    rw [h]
    exact congrArg (Except.mapError _) (toSet_ofSet s)

/-- Without a limit on digits every set is loaded as it was saved. -/
theorem load_save (s : ClauseSet) :
    toSet (ofSet s) = .ok s ∧ load (save s) none = .ok s ∧
      ∀ limit : ℕ, load (save s) (some limit) = .ok s ↔
        ∀ c ∈ s.toList, digitCount c.step ≤ limit := by
  refine ⟨toSet_ofSet s, (load_save_eq_ok_iff s none).2 fun _ _ => rfl, fun limit => ?_⟩
  simp only [load_save_eq_ok_iff, excess?_some_eq_none_iff]

end Checkpoint

end Resolution
