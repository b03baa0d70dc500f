import Mathlib.Data.List.Perm.Basic
import Resolution.KnowledgeBase
import Resolution.Proofs.Stages

/-!
# The order of a round

The order in which a round goes through its pairs, and merges what they give, has no influence on
what it comes to. The resolvents of all pairs are the same with the same multiplicity
(`perm_resolvents`), and as known ones are told by their literals, so are those that are new and
those that are empty. Adding the same batch in another order adds the same literals, each once
(`perm_added_absorb`), and as all that is added is stamped with the round, the set has the same
entries after it (`SameEntries.absorb`). What does depend on the order is which of several
derivations of a clause is the one recorded. But nothing in a later round looks at the record, so
the entries are the same at every stage of a run (`SameEntries.stage`).
-/

namespace Resolution

/-- The literals of a clause and the round in which it was added. -/
def Clause.entry (c : Clause) : List Literal × ℤ :=
  (c.literals, c.step)

/-- Two sets hold the same literals with the same steps, in whatever order. -/
def ClauseSet.SameEntries (s t : ClauseSet) : Prop :=
  (s.toList.map Clause.entry).Perm (t.toList.map Clause.entry)

section Resolvents

variable {kb kb' : List Clause} {s s' : ClauseSet}

theorem ClauseSet.SameEntries.of_perm (h : s'.toList.Perm s.toList) : s'.SameEntries s :=
  h.map _

theorem ClauseSet.SameEntries.perm_literals (h : s'.SameEntries s) :
    (s'.toList.map Clause.literals).Perm (s.toList.map Clause.literals) := by
  have hfst := h.map Prod.fst
  rwa [List.map_map, List.map_map] at hfst

theorem ClauseSet.SameEntries.mem_iff (h : s'.SameEntries s) {ls : List Literal} :
    ls ∈ s' ↔ ls ∈ s :=
  h.perm_literals.mem_iff

/-- Of the clauses that are resolved only the literals are looked at. -/
theorem resolvents_eq_flatMap_literals (kb : List Clause) (s : ClauseSet) :
    resolvents kb s = (kb.map Clause.literals).flatMap fun as =>
      (s.toList.map Clause.literals).flatMap fun bs =>
        resolve { literals := as } { literals := bs } := by
  rw [resolvents, List.flatMap_map]
  refine List.flatMap_congr fun a _ => ?_
  rw [List.flatMap_map]
  refine List.flatMap_congr fun b _ => ?_
  rw [resolve_literals_left, resolve_literals_right]

theorem perm_resolvents (hkb : (kb'.map Clause.literals).Perm (kb.map Clause.literals))
    (hs : s'.SameEntries s) : (resolvents kb' s').Perm (resolvents kb s) := by
  rw [resolvents_eq_flatMap_literals, resolvents_eq_flatMap_literals]
  exact hkb.flatMap fun _ _ => hs.perm_literals.flatMap fun _ _ => .refl _

theorem perm_contradictions (hkb : (kb'.map Clause.literals).Perm (kb.map Clause.literals))
    (hs : s'.SameEntries s) : (contradictions kb' s').Perm (contradictions kb s) :=
  (perm_resolvents hkb hs).filter _

theorem perm_newResolvents (hkb : (kb'.map Clause.literals).Perm (kb.map Clause.literals))
    (hs : s'.SameEntries s) : (newResolvents kb' s').Perm (newResolvents kb s) := by
  have hcontains : s'.contains = s.contains := by
    funext r
    rw [Bool.eq_iff_iff, ClauseSet.contains_iff_mem, ClauseSet.contains_iff_mem, hs.mem_iff]
  rw [newResolvents, hcontains]
  exact (perm_resolvents hkb hs).filter _

end Resolvents

section Absorbing

variable {number : ℤ} {s s' : ClauseSet} {batch batch' : List Clause}

theorem nodup_added_absorb (number : ℤ) (s : ClauseSet) (batch : List Clause) :
    ((absorb number s batch).added.map Clause.literals).Nodup := by
  have hdistinct := (absorb number s batch).known.distinct
  rw [toList_known_absorb, List.map_append] at hdistinct
  exact hdistinct.of_append_right

/-- What is added are the literals of the batch that were not known. -/
theorem mem_literals_added_absorb {ls : List Literal} :
    ls ∈ (absorb number s batch).added.map Clause.literals
      ↔ ls ∉ s ∧ ∃ d ∈ batch, d.literals = ls := by
  constructor
  · intro h
    obtain ⟨c, hc, rfl⟩ := List.mem_map.mp h
    obtain ⟨hs, d, hd, rfl⟩ := mem_added_absorb hc
    exact ⟨hs, d, hd, rfl⟩
  · rintro ⟨hs, hbatch⟩
    have hknown : ls ∈ (absorb number s batch).known := mem_known_absorb.mpr (.inr hbatch)
    obtain ⟨c, hc, rfl⟩ := ClauseSet.mem_iff.mp hknown
    rw [toList_known_absorb, List.mem_append] at hc
    exact List.mem_map_of_mem (hc.resolve_left fun hc => hs (ClauseSet.mem_of_mem_toList hc))

theorem map_entry_added_absorb (number : ℤ) (s : ClauseSet) (batch : List Clause) :
    (absorb number s batch).added.map Clause.entry
      = ((absorb number s batch).added.map Clause.literals).map fun ls => (ls, number) := by
  rw [List.map_map]
  refine List.map_congr_left fun c hc => ?_
  obtain ⟨-, d, -, rfl⟩ := mem_added_absorb hc
  rfl

theorem perm_added_absorb (hs : s'.SameEntries s) (hbatch : batch'.Perm batch) :
    ((absorb number s' batch').added.map Clause.literals).Perm
      ((absorb number s batch).added.map Clause.literals) := by
  refine (List.perm_ext_iff_of_nodup (nodup_added_absorb _ _ _) (nodup_added_absorb _ _ _)).mpr
    fun ls => ?_
  simp only [mem_literals_added_absorb, hs.mem_iff, hbatch.mem_iff]

theorem perm_entry_added_absorb (hs : s'.SameEntries s) (hbatch : batch'.Perm batch) :
    ((absorb number s' batch').added.map Clause.entry).Perm
      ((absorb number s batch).added.map Clause.entry) := by
  rw [map_entry_added_absorb, map_entry_added_absorb]
  exact (perm_added_absorb hs hbatch).map _

theorem ClauseSet.SameEntries.absorb (hs : s'.SameEntries s) (hbatch : batch'.Perm batch) :
    (absorb number s' batch').known.SameEntries (absorb number s batch).known := by
  rw [SameEntries, toList_known_absorb, toList_known_absorb, List.map_append, List.map_append]
  exact List.Perm.append hs (perm_entry_added_absorb hs hbatch)

end Absorbing

section Stages

variable {kb kb' : List Clause} {s s' : ClauseSet}

theorem ClauseSet.SameEntries.perform (hs : s'.SameEntries s) (number : ℤ)
    (hkb : (kb'.map Clause.literals).Perm (kb.map Clause.literals)) :
    (Round.perform kb' number s').known.SameEntries (Round.perform kb number s).known :=
  hs.absorb (perm_newResolvents hkb hs)

/-- In whatever order the clauses of the knowledge base and those known at first are given, every
stage has the same entries, and every round reports the same contradictions. -/
theorem ClauseSet.SameEntries.stage (hs : s'.SameEntries s) (first : ℤ) (n : ℕ)
    (hkb : (kb'.map Clause.literals).Perm (kb.map Clause.literals)) :
    (stage kb' first s' n).SameEntries (stage kb first s n)
      ∧ (roundAt kb' first s' n).contradictions.Perm (roundAt kb first s n).contradictions := by
  have hstage : (Resolution.stage kb' first s' n).SameEntries (Resolution.stage kb first s n) := by
    induction n with
    | zero => exact hs
    | succ n ih => exact ih.perform _ hkb
  exact ⟨hstage, perm_contradictions hkb hstage⟩

end Stages

/-- With the clauses of the knowledge base and the known ones in any order, a round finds the same
new resolvents and reports the same contradictions, each as often as before. And in any order in
which the new resolvents are added, the set they are added to has the same entries afterwards, and
the same clauses are added, each once. -/
theorem round_perm (kb kb' : List Clause) (known known' : ClauseSet) (hkb : kb'.Perm kb)
    (hknown : known'.toList.Perm known.toList) :
    (newResolvents kb' known').Perm (newResolvents kb known)
      ∧ (∀ r ∈ newResolvents kb' known', r.isEmpty = false ∧ known.contains r = false)
      ∧ (contradictions kb' known').Perm (contradictions kb known)
      ∧ ∀ (number : ℤ) (batch : List Clause), batch.Perm (newResolvents kb known) →
        let a := absorb number known (newResolvents kb known)
        let a' := absorb number known' batch
        a'.known.SameEntries a.known
          ∧ (a'.added.map Clause.entry).Perm (a.added.map Clause.entry)
          ∧ (a'.added.map Clause.literals).Nodup := by
  have hentries : known'.SameEntries known := .of_perm hknown
  have hnew := perm_newResolvents (hkb.map Clause.literals) hentries
  refine ⟨hnew, fun r hr => ?_, perm_contradictions (hkb.map _) hentries,
    fun number batch hbatch => ?_⟩
  · obtain ⟨-, hne, hmem⟩ := mem_newResolvents.mp (hnew.mem_iff.mp hr)
    rw [← ClauseSet.contains_iff_mem] at hmem
    exact ⟨hne, Bool.eq_false_iff.mpr hmem⟩
  · exact ⟨hentries.absorb hbatch, perm_entry_added_absorb hentries hbatch,
      nodup_added_absorb number known' batch⟩

/-- `B` follows from `A` and `A → B` and from `C` and `C → B`. The clauses the other way round and
the batch in its own order: the derivation recorded is another one, the entries are the same. -/
theorem round_perm_two_derivations :
    let cs : List Clause := [⟨[⟨true, "A"⟩], [], 0⟩, ⟨[⟨false, "A"⟩, ⟨true, "B"⟩], [], 0⟩,
      ⟨[⟨true, "C"⟩], [], 0⟩, ⟨[⟨false, "C"⟩, ⟨true, "B"⟩], [], 0⟩]
    let kb := KnowledgeBase.ofList cs
    let kb' := KnowledgeBase.ofList cs.reverse
    let batch := newResolvents kb'.toList kb'.clauses
    let a := absorb 1 kb.clauses (newResolvents kb.toList kb.clauses)
    let a' := absorb 1 kb'.clauses batch
    kb'.toList.Perm kb.toList ∧ kb'.clauses.toList.Perm kb.clauses.toList
      ∧ batch.Perm (newResolvents kb.toList kb.clauses)
      ∧ a'.known.SameEntries a.known ∧ (a'.added.map Clause.literals).Nodup
      ∧ a.added = [⟨[⟨true, "B"⟩], ["A", "(not A) B"], 1⟩]
      ∧ a'.added = [⟨[⟨true, "B"⟩], ["(not C) B", "C"], 1⟩] := by
  intro cs kb kb' batch a a'
  have hkb : kb'.toList.Perm kb.toList := by decide
  obtain ⟨hnew, -, -, habsorb⟩ := round_perm kb.toList kb'.toList kb.clauses kb'.clauses hkb hkb
  obtain ⟨hentries, -, hnodup⟩ := habsorb 1 batch hnew
  exact ⟨hkb, hkb, hnew, hentries, hnodup, by decide, by decide⟩

end Resolution
