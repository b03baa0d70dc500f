import Mathlib.Data.List.Induction
import Resolution.Proofs.Rounds

/-!
# First occurrences

A set made from a list holds the clauses that have other literals than each clause before them, in
their order and with their own records (`ClauseSet.toList_ofList`). The induction takes clauses
from the end of the list, as a set grows at its end.
-/

namespace Resolution

/-- The clauses, in order, that have other literals than each clause before them. -/
def firstOccurrences (cs : List Clause) : List Clause :=
  (cs.zipIdx.filter fun (c, i) => c.literals ∉ (cs.take i).map Clause.literals).map Prod.fst

section Lists

variable {α : Type*} {p : α → Bool} {xs : List α} {a : α}

/-- What is appended is found after all else, also where it is appended only if nothing like it is
there. -/
theorem find?_ite_append {c : Prop} [Decidable c] (h : c → p a = true → xs.any p = true) :
    (if c then xs else xs ++ [a]).find? p = (xs.find? p).or ([a].find? p) := by
  split_ifs with hc
  · by_cases ha : p a = true
    · have hfound := h hc ha
      rw [← List.isSome_find?] at hfound
      rw [Option.or_of_isSome hfound]
    · simp [ha]
  · rw [List.find?_append]

end Lists

section Occurrences

variable {cs : List Clause} {c : Clause}

theorem firstOccurrences_concat (cs : List Clause) (c : Clause) :
    firstOccurrences (cs ++ [c]) = if c.literals ∈ cs.map Clause.literals then firstOccurrences cs
      else firstOccurrences cs ++ [c] := by
  have hfront : cs.zipIdx.filter (fun (d, i) =>
        d.literals ∉ ((cs ++ [c]).take i).map Clause.literals)
      = cs.zipIdx.filter fun (d, i) => d.literals ∉ (cs.take i).map Clause.literals := by
    refine List.filter_congr fun (d, i) hd => ?_
    obtain ⟨-, hi, -⟩ := List.mem_zipIdx hd
    have htake : (cs ++ [c]).take i = cs.take i := List.take_append_of_le_length (by omega)
    dsimp only
    rw [htake]
  have htake : (cs ++ [c]).take cs.length = cs := List.take_left
  rw [firstOccurrences, List.zipIdx_append, List.filter_append, hfront, List.map_append,
    ← firstOccurrences, List.zipIdx_singleton, Nat.zero_add]
  split_ifs with hc
  · rw [List.filter_cons_of_neg (by simpa [htake] using hc)]
    simp
  · rw [List.filter_cons_of_pos (by simpa [htake] using hc)]
    simp

theorem mem_of_mem_firstOccurrences (h : c ∈ firstOccurrences cs) : c ∈ cs := by
  obtain ⟨⟨d, i⟩, hd, rfl⟩ := List.mem_map.mp h
  exact List.mem_of_getElem? (List.mem_zipIdx_iff_getElem?.mp (List.mem_filter.mp hd).1)

/-- Clauses that are distinct all occur for the first time. -/
theorem firstOccurrences_of_nodup (h : (cs.map Clause.literals).Nodup) :
    firstOccurrences cs = cs := by
  induction cs using List.reverseRecOn with
  | nil => rfl
  | append_singleton cs c ih =>
    rw [List.map_append, List.map_singleton, List.nodup_append] at h
    have hc : c.literals ∉ cs.map Clause.literals :=
      fun hc => h.2.2 _ hc _ (List.mem_singleton_self _) rfl
    rw [firstOccurrences_concat, if_neg hc, ih h.1]

end Occurrences

namespace ClauseSet

theorem ofList_concat (cs : List Clause) (c : Clause) :
    ofList (cs ++ [c]) = (ofList cs).insert c := by
  rw [ofList, List.foldl_append]
  rfl

theorem mem_ofList {cs : List Clause} {ls : List Literal} :
    ls ∈ ofList cs ↔ ∃ c ∈ cs, c.literals = ls := by
  rw [ofList, mem_foldl_insert]
  exact or_iff_right List.not_mem_nil

theorem toList_ofList (cs : List Clause) : (ofList cs).toList = firstOccurrences cs := by
  induction cs using List.reverseRecOn with
  | nil => rfl
  | append_singleton cs c ih =>
    have hcontains : (ofList cs).contains c = true ↔ c.literals ∈ cs.map Clause.literals := by
      rw [contains_iff_mem, mem_ofList, List.mem_map]
    simp only [ofList_concat, toList_insert, firstOccurrences_concat, ih, hcontains]

theorem ofList_append (cs ds : List Clause) : ofList (cs ++ ds) = ds.foldl insert (ofList cs) :=
  List.foldl_append

theorem get?_insert (s : ClauseSet) (d c : Clause) :
    (s.insert d).get? c = (s.get? c).or ([d].find? fun e => e.literals = c.literals) := by
  rw [get?, toList_insert]
  refine find?_ite_append fun hd hdc => ?_
  rw [contains, of_decide_eq_true hdc] at hd
  exact hd

theorem get?_ofList (cs : List Clause) (c : Clause) :
    (ofList cs).get? c = cs.find? fun d => d.literals = c.literals := by
  induction cs using List.reverseRecOn with
  | nil => rfl
  | append_singleton cs d ih => rw [ofList_concat, get?_insert, ih, List.find?_append]

theorem get?_eq_some_iff {s : ClauseSet} {c d : Clause} :
    s.get? c = some d ↔ d ∈ s.toList ∧ d.literals = c.literals := by
  have hfound : ∀ {e}, s.get? c = some e → e ∈ s.toList ∧ e.literals = c.literals := by
    intro e he
    have hls := List.find?_some he
    exact ⟨List.mem_of_find?_eq_some he, of_decide_eq_true hls⟩
  refine ⟨hfound, fun ⟨hd, hls⟩ => ?_⟩
  obtain ⟨e, he⟩ : ∃ e, s.get? c = some e :=
    Option.isSome_iff_exists.mp (List.find?_isSome.mpr ⟨d, hd, decide_eq_true hls⟩)
  obtain ⟨hmem, heq⟩ := hfound he
  rw [he, List.inj_on_of_nodup_map s.distinct hmem hd (heq.trans hls.symm)]

theorem ofList_toList (s : ClauseSet) : ofList s.toList = s :=
  ext ((toList_ofList s.toList).trans (firstOccurrences_of_nodup s.distinct))

end ClauseSet

end Resolution
