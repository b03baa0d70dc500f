import Resolution.KnowledgeBase
import Resolution.Proofs.FirstOccurrences

/-!
# Knowledge bases as sets

A knowledge base is made in one pass, and what it comes to are two lists: the normal forms that
are not empty make the set, and the empty ones are what is dropped (`KnowledgeBase.ofList_eq`). So
each clause of it stands where its normal form occurs first, with the record it has there. What is
a knowledge base already stays as it is, which is why the front part of a list may be made one
beforehand.
-/

namespace Resolution

namespace KnowledgeBase

variable {cs : List Clause} {c : Clause}

theorem ofList_toList (kb : KnowledgeBase) : ClauseSet.ofList kb.toList = kb.clauses :=
  ClauseSet.ofList_toList kb.clauses

theorem foldl_add : ∀ (cs : List Clause) (kb : KnowledgeBase), cs.foldl add kb =
    ⟨((cs.map Clause.standardize).filter (!·.isEmpty)).foldl ClauseSet.insert kb.clauses,
      kb.dropped ++ (cs.map Clause.standardize).filter Clause.isEmpty⟩
  | [], kb => by simp
  | c :: cs, kb => by
    rw [List.foldl_cons, foldl_add cs, List.map_cons, add]
    split_ifs with hc <;> simp [hc]

theorem ofList_eq (cs : List Clause) :
    ofList cs = ⟨ClauseSet.ofList ((cs.map Clause.standardize).filter (!·.isEmpty)),
      (cs.map Clause.standardize).filter Clause.isEmpty⟩ := by
  rw [ofList, foldl_add, List.nil_append]
  rfl

theorem toList_ofList (cs : List Clause) : (ofList cs).toList
    = firstOccurrences ((cs.map Clause.standardize).filter (!·.isEmpty)) := by
  rw [ofList_eq, toList, ClauseSet.toList_ofList]

theorem dropped_ofList :
    (ofList cs).dropped = (cs.map Clause.standardize).filter Clause.isEmpty := by
  rw [ofList_eq]

theorem mem_clauses_ofList {ls : List Literal} : ls ∈ (ofList cs).clauses ↔
    ∃ c ∈ cs, c.standardize.isEmpty = false ∧ c.standardize.literals = ls := by
  rw [ofList_eq, ClauseSet.mem_ofList]
  simp [and_assoc]

theorem exists_eq_standardize (h : c ∈ (ofList cs).toList) : ∃ d ∈ cs, c = d.standardize := by
  rw [toList_ofList] at h
  obtain ⟨d, hd, rfl⟩ := List.mem_map.mp (List.mem_filter.mp (mem_of_mem_firstOccurrences h)).1
  exact ⟨d, hd, rfl⟩

theorem step_eq_zero_of_mem (hstep : ∀ d ∈ cs, d.step = 0) (h : c ∈ (ofList cs).toList) :
    c.step = 0 := by
  obtain ⟨d, hd, rfl⟩ := exists_eq_standardize h
  exact hstep d hd

theorem source_step_of_mem (h : ∀ d ∈ cs, d.source = [] ∧ d.step = 0)
    (hc : c ∈ (ofList cs).toList) : c.source = [] ∧ c.step = 0 := by
  obtain ⟨d, hd, rfl⟩ := exists_eq_standardize hc
  exact h d hd

theorem normalForm_of_mem (h : c ∈ (ofList cs).toList) : NormalForm c.literals := by
  obtain ⟨d, -, rfl⟩ := exists_eq_standardize h
  exact Clause.normalForm_standardize d

theorem isEmpty_of_mem (h : c ∈ (ofList cs).toList) : c.isEmpty = false := by
  obtain ⟨d, -, hd, heq⟩ := mem_clauses_ofList.mp (ClauseSet.mem_of_mem_toList h)
  rwa [Clause.isEmpty, ← heq]

/-- Taking the normal forms beforehand changes nothing. -/
theorem ofList_map_standardize (cs : List Clause) :
    ofList (cs.map Clause.standardize) = ofList cs := by
  have hidem : (cs.map Clause.standardize).map Clause.standardize = cs.map Clause.standardize := by
    rw [List.map_map]
    exact List.map_congr_left fun c _ =>
      Clause.standardize_of_normalForm (Clause.normalForm_standardize c)
  rw [ofList_eq, hidem, ofList_eq]

/-- Distinct clauses in normal form, none of them empty, are a knowledge base as they stand. -/
theorem ofList_of_normalForm (hnormal : ∀ c ∈ cs, NormalForm c.literals)
    (hne : ∀ c ∈ cs, c.isEmpty = false) (hdistinct : (cs.map Clause.literals).Nodup) :
    (ofList cs).toList = cs ∧ (ofList cs).dropped = [] := by
  have hmap : cs.map Clause.standardize = cs :=
    (List.map_congr_left fun c hc => Clause.standardize_of_normalForm (hnormal c hc)).trans
      (List.map_id cs)
  have hfilled : cs.filter (!·.isEmpty) = cs :=
    List.filter_eq_self.mpr fun c hc => by rw [hne c hc]; rfl
  rw [toList_ofList, dropped_ofList, hmap, hfilled, firstOccurrences_of_nodup hdistinct]
  exact ⟨rfl, List.filter_eq_nil_iff.mpr fun c hc => by rw [hne c hc]; exact Bool.false_ne_true⟩

/-- A knowledge base is its own knowledge base, and nothing is dropped from it any more. -/
theorem ofList_toList_ofList (cs : List Clause) :
    (ofList (ofList cs).toList).toList = (ofList cs).toList
      ∧ (ofList (ofList cs).toList).dropped = [] :=
  ofList_of_normalForm (fun _ => normalForm_of_mem) (fun _ => isEmpty_of_mem)
    (ofList cs).clauses.distinct

theorem ofList_append (cs ds : List Clause) : ofList (cs ++ ds) = ds.foldl add (ofList cs) :=
  List.foldl_append

/-- A knowledge base has the normal forms that are not empty, each where it occurs first, with the
record it has there, and only once; what is dropped is the empty ones, each time they occur. Where
the front part of the clauses is made a knowledge base beforehand, the same comes of it all, and
what is dropped is what was dropped beforehand and what still is. -/
theorem ofList_compositional (cs ds : List Clause) :
    (ofList cs).toList = firstOccurrences ((cs.map Clause.standardize).filter (!·.isEmpty))
      ∧ ((ofList cs).toList.map Clause.literals).Nodup
      ∧ (ofList cs).dropped = (cs.map Clause.standardize).filter Clause.isEmpty
      ∧ (ofList (cs ++ ds)).toList = (ofList ((ofList cs).toList ++ ds)).toList
      ∧ (ofList (cs ++ ds)).dropped
        = (ofList cs).dropped ++ (ofList ((ofList cs).toList ++ ds)).dropped := by
  refine ⟨toList_ofList cs, (ofList cs).clauses.distinct, dropped_ofList, ?_⟩
  -- what is made a knowledge base again goes on from the same set, with nothing dropped so far
  obtain ⟨hlist, hdropped⟩ := ofList_toList_ofList cs
  have hclauses : (ofList (ofList cs).toList).clauses = (ofList cs).clauses := ClauseSet.ext hlist
  rw [ofList_append, ofList_append, foldl_add, foldl_add, hclauses, hdropped, List.nil_append]
  exact ⟨rfl, rfl⟩

/-- Of two clauses with one normal form the first gives the record, and nothing is left of the
clause between them. -/
example : ofList [⟨[⟨true, "B"⟩, ⟨true, "A"⟩], ["p", "q"], 2⟩,
      ⟨[⟨true, "A"⟩, ⟨false, "A"⟩], ["r"], 1⟩, ⟨[⟨true, "A"⟩, ⟨true, "B"⟩, ⟨true, "A"⟩], [], 0⟩]
    = ⟨.ofList [⟨[⟨true, "A"⟩, ⟨true, "B"⟩], ["p", "q"], 2⟩], [⟨[], ["r"], 1⟩]⟩ := by rfl

end KnowledgeBase

/-- That `A`, that `A` implies `B`, and that `B` implies `C`, with a literal written twice. -/
def chain : List Clause :=
  [⟨[⟨true, "A"⟩], [], 0⟩, ⟨[⟨true, "B"⟩, ⟨false, "A"⟩], [], 0⟩,
    ⟨[⟨true, "C"⟩, ⟨false, "B"⟩, ⟨true, "C"⟩], [], 0⟩]

end Resolution
