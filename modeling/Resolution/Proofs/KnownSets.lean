import Resolution.Proofs.KnowledgeBases
import Resolution.Proofs.Stages

/-!
# The sets that rounds make known

Membership in a known set is looked up by literals, so it means what it should only as long as
every clause known is in normal form. It is: what a round adds is a normal form that is not empty,
new to the set, and made of literals of the parents. So a round that starts from a set grown from a
knowledge base leaves one (`Grown.perform`), and so does every run (`Grown.stage`).
-/

namespace Resolution

/-- A clause in normal form that is not empty, over literals that the knowledge base has with the
same polarity. -/
structure NormalWithin (kb : List Clause) (c : Clause) : Prop where
  nonempty : c.isEmpty = false
  normal : NormalForm c.literals
  literals_mem : ∀ l ∈ c.literals, ∃ k ∈ kb, l ∈ k.literals

/-- The clauses of a knowledge base followed by others, all of them distinct. -/
structure Grown (kb cs : List Clause) : Prop where
  isPrefix : kb <+: cs
  distinct : (cs.map Clause.literals).Nodup
  normalWithin : ∀ c ∈ cs, NormalWithin kb c

section Growing

variable {kb : List Clause} {s : ClauseSet} {q r k : Clause}

theorem NormalWithin.of_mem_resolve (hq : NormalWithin kb q) (hk : k ∈ kb) (hr : r ∈ resolve k q)
    (hne : r.isEmpty = false) : NormalWithin kb r where
  nonempty := hne
  normal := normalForm_of_mem_resolve hr
  literals_mem l hl := by
    rcases mem_literals_of_mem_resolve hr hl with hl | hl
    · exact ⟨k, hk, hl⟩
    · exact hq.literals_mem l hl

/-- Being normal within a knowledge base is a matter of literals. -/
theorem NormalWithin.congr (h : NormalWithin kb r) (hls : q.literals = r.literals) :
    NormalWithin kb q where
  nonempty := by rw [Clause.isEmpty, hls]; exact h.nonempty
  normal := hls ▸ h.normal
  literals_mem := hls ▸ h.literals_mem

theorem Grown.perform (h : Grown kb s.toList) (number : ℤ) :
    Grown kb (Round.perform kb number s).known.toList where
  isPrefix := h.isPrefix.trans ⟨_, toList_known_perform.symm⟩
  distinct := (Round.perform kb number s).known.distinct
  normalWithin c hc := by
    rw [toList_known_perform, List.mem_append] at hc
    rcases hc with hc | hc
    · exact h.normalWithin c hc
    · obtain ⟨-, -, hne, k, hk, q, hq, r, hr, hls, -⟩ := mem_added_perform hc
      rw [Clause.isEmpty, hls] at hne
      exact ((h.normalWithin q hq).of_mem_resolve hk hr hne).congr hls

theorem Grown.stage {known : ClauseSet} (h : Grown kb known.toList) (first : ℤ) (n : ℕ) :
    Grown kb (stage kb first known n).toList := by
  induction n with
  | zero => exact h
  | succ n ih => exact ih.perform _

end Growing

namespace KnowledgeBase

variable {cs : List Clause} {c : Clause}

theorem grown (cs : List Clause) : Grown (ofList cs).toList (ofList cs).toList where
  isPrefix := List.prefix_rfl
  distinct := (ofList cs).clauses.distinct
  normalWithin c hc := ⟨isEmpty_of_mem hc, normalForm_of_mem hc, fun _ hl => ⟨c, hc, hl⟩⟩

end KnowledgeBase

end Resolution
