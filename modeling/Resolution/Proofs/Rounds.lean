import Mathlib.Data.List.Basic
import Resolution.Derivation
import Resolution.Proofs.NormalForm
import Resolution.Saturation.Round

/-!
# What one round does

Every resolvent is a normal form with literals of its parents only. A round keeps the known set as
it is and puts behind it, stamped with its number, the first copy of each resolvent that is neither
empty nor known (`mem_added_perform`); it adds something as soon as there is one
(`added_perform_ne_nil`), and the literals known afterwards are those known before and those of
the resolvents (`mem_known_perform`).
-/

namespace Resolution

section Resolvents

variable {a b r : Clause}

theorem normalForm_of_mem_resolve (h : r ∈ resolve a b) : NormalForm r.literals := by
  obtain ⟨i, j, l, -, -, rfl⟩ := mem_resolve.mp h
  exact Clause.normalForm_standardize _

theorem source_of_mem_resolve (h : r ∈ resolve a b) : r.source = [a.name, b.name] := by
  obtain ⟨i, j, l, -, -, rfl⟩ := mem_resolve.mp h
  rfl

/-- Of the clauses that are resolved only the literals matter. -/
theorem resolve_congr_right {c : Clause} (h : b.literals = c.literals) :
    resolve a b = resolve a c := by
  rw [← resolve_literals_right a b, h, resolve_literals_right]

theorem resolve_congr_left {c : Clause} (h : a.literals = c.literals) :
    resolve a b = resolve c b := by
  rw [← resolve_literals_left a b, h, resolve_literals_left]

theorem mem_literals_of_mem_resolve (h : r ∈ resolve a b) {l : Literal} (hl : l ∈ r.literals) :
    l ∈ a.literals ∨ l ∈ b.literals := by
  obtain ⟨i, j, m, -, -, rfl⟩ := mem_resolve.mp h
  have hmem := (Clause.mem_standardize.mp hl).1
  rcases List.mem_append.mp hmem with hm | hm
  · exact .inl (List.mem_of_mem_eraseIdx hm)
  · exact .inr (List.mem_of_mem_eraseIdx hm)

end Resolvents

namespace ClauseSet

/-- Literals belong to a set when they are those of one of its clauses. -/
instance : Membership (List Literal) ClauseSet :=
  ⟨fun s ls => ls ∈ s.toList.map Clause.literals⟩

variable {s : ClauseSet} {c : Clause} {ls : List Literal}

theorem mem_iff : ls ∈ s ↔ ∃ c ∈ s.toList, c.literals = ls :=
  List.mem_map

theorem mem_of_mem_toList (h : c ∈ s.toList) : c.literals ∈ s :=
  List.mem_map_of_mem h

theorem contains_iff_mem : s.contains c = true ↔ c.literals ∈ s :=
  contains_iff

@[simp]
theorem mem_insert : ls ∈ s.insert c ↔ ls ∈ s ∨ c.literals = ls := by
  have h := @contains_insert s c { literals := ls }
  rwa [Bool.eq_iff_iff, contains_iff_mem, Bool.or_eq_true, contains_iff_mem,
    decide_eq_true_iff] at h

theorem mem_foldl_insert {cs : List Clause} :
    ls ∈ cs.foldl insert s ↔ ls ∈ s ∨ ∃ c ∈ cs, c.literals = ls := by
  induction cs generalizing s with
  | nil => simp
  | cons c cs ih => rw [List.foldl_cons, ih, mem_insert, List.exists_mem_cons_iff, or_assoc]

end ClauseSet

section Absorbing

variable {round : ℤ} {s : ClauseSet} {cs : List Clause} {c : Clause}

theorem mem_added_absorb (h : c ∈ (absorb round s cs).added) :
    c.literals ∉ s ∧ ∃ d ∈ cs, c = { d with step := round } := by
  induction cs generalizing s with
  | nil => simp [absorb] at h
  | cons d ds ih =>
    unfold absorb at h
    split at h
    · obtain ⟨hs, e, he, heq⟩ := ih h
      exact ⟨hs, e, List.mem_cons_of_mem _ he, heq⟩
    · rename_i hd
      rcases List.mem_cons.mp h with rfl | h
      · exact ⟨fun hmem => hd (ClauseSet.contains_iff.mpr hmem), d, List.mem_cons_self, rfl⟩
      · obtain ⟨hs, e, he, heq⟩ := ih h
        exact ⟨fun hmem => hs (ClauseSet.mem_insert.mpr (.inl hmem)), e,
          List.mem_cons_of_mem _ he, heq⟩

/-- What is known after a batch is what inserting its clauses gives, each stamped beforehand. -/
theorem known_absorb (round : ℤ) (s : ClauseSet) (cs : List Clause) : (absorb round s cs).known
    = (cs.map fun c => { c with step := round }).foldl ClauseSet.insert s := by
  induction cs generalizing s with
  | nil => rfl
  | cons c cs ih =>
    unfold absorb
    split
    case isTrue hc =>
      have hstamped : s.contains { c with step := round } = true := hc
      rw [List.map_cons, List.foldl_cons, ClauseSet.insert_of_contains hstamped]
      exact ih s
    case isFalse => exact ih _

theorem mem_known_absorb {ls : List Literal} :
    ls ∈ (absorb round s cs).known ↔ ls ∈ s ∨ ∃ d ∈ cs, d.literals = ls := by
  rw [known_absorb, ClauseSet.mem_foldl_insert]
  simp only [List.mem_map, exists_exists_and_eq_and]

theorem batch_absorb_eq_nil : (absorb round s cs).batch = [] ↔ cs = [] := by
  rw [← List.map_eq_nil_iff, literals_batch_absorb, List.map_eq_nil_iff]

end Absorbing

section Performing

variable {kb : List Clause} {number : ℤ} {s : ClauseSet} {c : Clause}

theorem mem_resolvents {r : Clause} :
    r ∈ resolvents kb s ↔ ∃ k ∈ kb, ∃ q ∈ s.toList, r ∈ resolve k q := by
  simp [resolvents]

theorem mem_newResolvents {r : Clause} :
    r ∈ newResolvents kb s ↔ r ∈ resolvents kb s ∧ r.isEmpty = false ∧ r.literals ∉ s := by
  rw [newResolvents, List.mem_filter, ← ClauseSet.contains_iff_mem]
  simp

theorem toList_known_perform : (Round.perform kb number s).known.toList
    = s.toList ++ (Round.perform kb number s).added :=
  toList_known_absorb number s _

/-- What a round adds was not known, is stamped with the round, and is otherwise a resolvent, not
empty, of a clause of the knowledge base with a known one. -/
theorem mem_added_perform (h : c ∈ (Round.perform kb number s).added) :
    c.literals ∉ s ∧ c.step = number ∧ c.isEmpty = false ∧
      ∃ k ∈ kb, ∃ q ∈ s.toList, ∃ r ∈ resolve k q,
        c.literals = r.literals ∧ c.source = r.source := by
  obtain ⟨hs, r, hr, rfl⟩ := mem_added_absorb h
  obtain ⟨hres, hne, -⟩ := mem_newResolvents.mp hr
  obtain ⟨k, hk, q, hq, hmem⟩ := mem_resolvents.mp hres
  exact ⟨hs, rfl, hne, k, hk, q, hq, r, hmem, rfl, rfl⟩

theorem mem_known_perform {ls : List Literal} :
    ls ∈ (Round.perform kb number s).known ↔
      ls ∈ s ∨ ∃ k ∈ kb, ∃ q ∈ s.toList, ∃ r ∈ resolve k q,
        r.isEmpty = false ∧ r.literals = ls := by
  rw [Round.perform, mem_known_absorb]
  constructor
  · rintro (h | ⟨r, hr, rfl⟩)
    · exact .inl h
    · obtain ⟨hres, hne, -⟩ := mem_newResolvents.mp hr
      obtain ⟨k, hk, q, hq, hmem⟩ := mem_resolvents.mp hres
      exact .inr ⟨k, hk, q, hq, r, hmem, hne, rfl⟩
  · rintro (h | ⟨k, hk, q, hq, r, hmem, hne, rfl⟩)
    · exact .inl h
    · by_cases hs : r.literals ∈ s
      · exact .inl hs
      · have hres := mem_resolvents.mpr ⟨k, hk, q, hq, hmem⟩
        exact .inr ⟨r, mem_newResolvents.mpr ⟨hres, hne, hs⟩, rfl⟩

theorem batch_perform_eq_nil :
    (Round.perform kb number s).batch = [] ↔ newResolvents kb s = [] :=
  batch_absorb_eq_nil

/-- A batch that is not empty adds something, however often its clauses repeat. -/
theorem added_perform_ne_nil (h : newResolvents kb s ≠ []) :
    (Round.perform kb number s).added ≠ [] := by
  intro hnil
  obtain ⟨r, hr⟩ := List.exists_mem_of_ne_nil _ h
  have hknown : r.literals ∈ (Round.perform kb number s).known :=
    mem_known_absorb.mpr (.inr ⟨r, hr, rfl⟩)
  obtain ⟨c, hc, heq⟩ := ClauseSet.mem_iff.mp hknown
  rw [toList_known_perform, hnil, List.append_nil] at hc
  exact (mem_newResolvents.mp hr).2.2 (heq ▸ ClauseSet.mem_of_mem_toList hc)

theorem added_perform_eq_nil :
    (Round.perform kb number s).added = [] ↔ newResolvents kb s = [] := by
  refine ⟨fun h => by_contra fun hne => added_perform_ne_nil hne h, fun h => ?_⟩
  rw [Round.perform, h, absorb]

theorem newResolvents_eq_nil : newResolvents kb s = [] ↔
    ∀ k ∈ kb, ∀ q ∈ s.toList, ∀ r ∈ resolve k q, r.isEmpty = true ∨ r.literals ∈ s := by
  simp only [List.eq_nil_iff_forall_not_mem, mem_newResolvents, mem_resolvents, not_and, not_not]
  constructor
  · intro h k hk q hq r hr
    rcases hr' : r.isEmpty
    · exact .inr (h r ⟨k, hk, q, hq, hr⟩ hr')
    · exact .inl rfl
  · rintro h r ⟨k, hk, q, hq, hr⟩ hne
    rcases h k hk q hq r hr with he | hmem
    · simp [hne] at he
    · exact hmem

end Performing

end Resolution
