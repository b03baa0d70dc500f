import Resolution.Proofs.Limits
import Resolution.Proofs.Provenance

/-!
# More clauses, and the same clauses in another order

Two runs on different knowledge bases go through different pairs in a different order, and their
lists and sources have little in common. What they hold, and with which steps, is said without any
order all the same: a closure holds the literals that steps of resolution derive, as many as its
limit allows (`mem_closure_iff`), and the step of a clause is the length of its shortest derivation
(`isLeast_step_of_mem_closure`). A derivation stays one when the knowledge base gets larger
(`Derivation.mono`), so clauses are kept and steps can only go down.
-/

namespace Resolution

/-- The clauses of `ds` have all the literals that those of `cs` have. -/
def Covers (ds cs : List Clause) : Prop :=
  ∀ c ∈ cs, ∃ d ∈ ds, d.literals = c.literals

theorem covers_of_contains {s : ClauseSet} {cs : List Clause}
    (h : ∀ c ∈ cs, s.contains c = true) : Covers s.toList cs := fun c hc =>
  ClauseSet.mem_iff.mp (ClauseSet.contains_iff_mem.mp (h c hc))

theorem Derivation.mono {kb kb' known known' : List Clause} {n : ℕ} {ls : List Literal}
    (hkb : Covers kb' kb) (hknown : Covers known' known) (h : Derivation kb known n ls) :
    Derivation kb' known' n ls := by
  induction h with
  | given hc =>
    obtain ⟨d, hd, heq⟩ := hknown _ hc
    exact heq ▸ .given hd
  | resolve _ hk hr hne ih =>
    obtain ⟨k, hk', heq⟩ := hkb _ hk
    rw [← resolve_congr_left heq] at hr
    exact .resolve ih hk' hr hne

section Closures

variable {cs ds : List Clause} {limit : Option ℤ} {stop : StopCondition} {c : Clause}
  {ls : List Literal}

theorem mem_closure_iff : ls ∈ (closure cs limit).known ↔
    ∃ n, (∀ l ∈ limit, n ≤ l.toNat)
      ∧ Derivation (KnowledgeBase.ofList cs).toList (KnowledgeBase.ofList cs).toList n ls := by
  constructor
  · intro h
    cases limit with
    | some l =>
      rw [known_closure_some, mem_stage_iff] at h
      obtain ⟨n, hn, hderive⟩ := h
      exact ⟨n, fun l' hl' => Option.some.inj hl' ▸ hn, hderive⟩
    | none =>
      obtain ⟨m, hknown⟩ := exists_closure_eq_stage cs none .never
      rw [hknown, mem_stage_iff] at h
      obtain ⟨n, -, hderive⟩ := h
      exact ⟨n, by simp, hderive⟩
  · rintro ⟨n, hn, hderive⟩
    obtain ⟨m, hm, hknown⟩ := exists_known_closure_eq cs hn
    rw [hknown, mem_stage_iff]
    exact ⟨n, hm, hderive⟩

theorem isLeast_step_of_mem_closure (hzero : ∀ d ∈ cs, d.step = 0)
    (h : c ∈ (closure cs limit stop).toList) :
    ∃ n : ℕ, c.step = n ∧ IsLeast {m | Derivation (KnowledgeBase.ofList cs).toList
      (KnowledgeBase.ofList cs).toList m c.literals} n := by
  obtain ⟨m, hknown⟩ := exists_closure_eq_stage cs limit stop
  rw [Closure.toList, hknown] at h
  exact isLeast_step_of_mem_stage (fun d hd => KnowledgeBase.step_eq_zero_of_mem hzero hd) h

theorem exists_mem_closure_of_covers (hcs : ∀ c ∈ cs, c.step = 0) (hds : ∀ d ∈ ds, d.step = 0)
    (hkb : Covers (KnowledgeBase.ofList ds).toList (KnowledgeBase.ofList cs).toList)
    (hc : c ∈ (closure cs limit).toList) :
    ∃ d ∈ (closure ds limit).toList, d.literals = c.literals ∧ d.step ≤ c.step := by
  obtain ⟨n, hn, hmem, hleast⟩ := isLeast_step_of_mem_closure hcs hc
  obtain ⟨m, hm, hderive⟩ := mem_closure_iff.mp (ClauseSet.mem_of_mem_toList hc)
  -- what some derivation within the limit gives, a shortest one gives
  obtain ⟨d, hd, heq⟩ := ClauseSet.mem_iff.mp
    (mem_closure_iff.mpr ⟨n, fun l hl => (hleast hderive).trans (hm l hl), hmem.mono hkb hkb⟩)
  obtain ⟨n', hn', -, hleast'⟩ := isLeast_step_of_mem_closure hds hd
  rw [heq] at hleast'
  have hle : n' ≤ n := hleast' (hmem.mono hkb hkb)
  exact ⟨d, hd, heq, by omega⟩

theorem nodup_literals_step (s : ClauseSet) :
    (s.toList.map fun c => (c.literals, c.step)).Nodup := by
  refine .of_map Prod.fst ?_
  rw [List.map_map]
  exact s.distinct

theorem mem_literals_step_of_covers (hcs : ∀ c ∈ cs, c.step = 0) (hds : ∀ d ∈ ds, d.step = 0)
    (hkb : Covers (KnowledgeBase.ofList ds).toList (KnowledgeBase.ofList cs).toList)
    (hkb' : Covers (KnowledgeBase.ofList cs).toList (KnowledgeBase.ofList ds).toList)
    {p : List Literal × ℤ} (hp : p ∈ (closure cs limit).toList.map fun c => (c.literals, c.step)) :
    p ∈ (closure ds limit).toList.map fun d => (d.literals, d.step) := by
  obtain ⟨c, hc, rfl⟩ := List.mem_map.mp hp
  obtain ⟨d, hd, heq, hle⟩ := exists_mem_closure_of_covers hcs hds hkb hc
  obtain ⟨c', hc', heq', hle'⟩ := exists_mem_closure_of_covers hds hcs hkb' hd
  -- the way there and back ends at the same clause
  obtain rfl : c' = c := List.inj_on_of_nodup_map (closure cs limit).known.distinct hc' hc
    (heq'.trans heq)
  refine List.mem_map.mpr ⟨d, hd, ?_⟩
  rw [heq, le_antisymm hle hle']

end Closures

/-- Of clauses at step 0, whatever knowledge base holds all clauses of another, its closure holds
those of the other's closure, at no greater steps. So if each holds the clauses of the other, the
closures hold the same clauses at the same steps, in whichever order. This is so under every limit
on the rounds. -/
theorem closure_monotone (cs ds : List Clause) (limit : Option ℤ) (hcs : ∀ c ∈ cs, c.step = 0)
    (hds : ∀ d ∈ ds, d.step = 0)
    (h : ∀ k ∈ (KnowledgeBase.ofList cs).toList,
      (KnowledgeBase.ofList ds).clauses.contains k = true) :
    (∀ c ∈ (closure cs limit).toList, ∃ d ∈ (closure ds limit).toList,
        d.literals = c.literals ∧ d.step ≤ c.step)
      ∧ ((∀ k ∈ (KnowledgeBase.ofList ds).toList,
          (KnowledgeBase.ofList cs).clauses.contains k = true) →
        ((closure cs limit).toList.map fun c => (c.literals, c.step)).Perm
          ((closure ds limit).toList.map fun d => (d.literals, d.step))) := by
  have hkb : Covers (KnowledgeBase.ofList ds).toList (KnowledgeBase.ofList cs).toList :=
    covers_of_contains h
  refine ⟨fun c hc => exists_mem_closure_of_covers hcs hds hkb hc, fun h' => ?_⟩
  have hkb' : Covers (KnowledgeBase.ofList cs).toList (KnowledgeBase.ofList ds).toList :=
    covers_of_contains h'
  refine (List.perm_ext_iff_of_nodup (nodup_literals_step _) (nodup_literals_step _)).mpr
    fun p => ⟨?_, ?_⟩
  · exact mem_literals_step_of_covers hcs hds hkb hkb'
  · exact mem_literals_step_of_covers hds hcs hkb' hkb

/-- The chain backwards, its literals in another order, with a repeated clause and one that is
cleaned to a clause of the chain. -/
theorem closure_monotone_chain :
    let ds : List Clause := [⟨[⟨false, "B"⟩, ⟨true, "C"⟩], [], 0⟩,
      ⟨[⟨true, "D"⟩, ⟨true, "B"⟩, ⟨false, "D"⟩, ⟨false, "A"⟩], [], 0⟩,
      ⟨[⟨true, "A"⟩], [], 0⟩, ⟨[⟨true, "C"⟩, ⟨false, "B"⟩], [], 0⟩]
    (∀ c ∈ chain, c.step = 0) ∧ (∀ d ∈ ds, d.step = 0)
      ∧ (∀ k ∈ (KnowledgeBase.ofList chain).toList,
        (KnowledgeBase.ofList ds).clauses.contains k = true)
      ∧ (∀ k ∈ (KnowledgeBase.ofList ds).toList,
        (KnowledgeBase.ofList chain).clauses.contains k = true)
      ∧ (∀ c ∈ (closure chain).toList, ∃ d ∈ (closure ds).toList,
        d.literals = c.literals ∧ d.step ≤ c.step)
      ∧ ((closure chain).toList.map fun c => (c.literals, c.step)).Perm
          ((closure ds).toList.map fun d => (d.literals, d.step)) := by
  intro ds
  have hcs : ∀ c ∈ chain, c.step = 0 := by decide
  have hds : ∀ d ∈ ds, d.step = 0 := by decide
  have h : ∀ k ∈ (KnowledgeBase.ofList chain).toList,
      (KnowledgeBase.ofList ds).clauses.contains k = true := by decide
  have h' : ∀ k ∈ (KnowledgeBase.ofList ds).toList,
      (KnowledgeBase.ofList chain).clauses.contains k = true := by decide
  obtain ⟨hle, hperm⟩ := closure_monotone chain ds none hcs hds h
  exact ⟨hcs, hds, h, h', hle, hperm h'⟩

-- the clause that ends the chain is derived in two steps, unless the knowledge base has it
example :
    let c : Clause := ⟨[⟨true, "C"⟩], [], 0⟩
    ((closure chain).known.get? c).map Clause.step = some 2
      ∧ ((closure (c :: chain)).known.get? c).map Clause.step = some 0 := by decide

end Resolution
