import Resolution.Proofs.Monotonicity
import Resolution.Proofs.NormalResolvents
import Resolution.Renaming

/-!
# Closures do not look into atoms

A renaming changes how literals sort, and with it the order of everything that a run goes through
and the parents that it names. What a closure holds at which step is said without any order, and
there a renaming only replaces literals: it respects negation and confuses no two literals, so the
clashes of two renamed clauses are those of the two clauses renamed (`renamed_of_mem_resolve`), and
steps of resolution lead from renamed clauses to what they led to before, renamed
(`Renames.derivation_normal_iff`).
-/

namespace Resolution

namespace Renaming

variable (ρ : Renaming)

/-- The normal form of the renamed literals. -/
def normal (ls : List Literal) : List Literal :=
  (ρ.clause { literals := ls }).standardize.literals

variable {ρ} {l m : Literal} {ls ms : List Literal} {a c : Clause}

theorem normalForm_normal (ls : List Literal) : NormalForm (ρ.normal ls) :=
  Clause.normalForm_standardize _

theorem mem_standardize_clause {c : Clause} : m ∈ (ρ.clause c).standardize.literals ↔
    ∃ l ∈ c.literals, l.negate ∉ c.literals ∧ ρ.literal l = m := by
  rw [Clause.mem_standardize, clause, List.mem_map]
  constructor
  · rintro ⟨⟨l, hl, rfl⟩, hn⟩
    refine ⟨l, hl, fun hmem => hn ?_, rfl⟩
    rw [← literal_negate]
    exact List.mem_map_of_mem hmem
  · rintro ⟨l, hl, hn, rfl⟩
    refine ⟨⟨l, hl, rfl⟩, fun hmem => hn ?_⟩
    obtain ⟨k, hk, heq⟩ := List.mem_map.mp hmem
    rw [← literal_negate, literal_inj] at heq
    exact heq ▸ hk

theorem mem_normal (h : NormalForm ls) : m ∈ ρ.normal ls ↔ ∃ l ∈ ls, ρ.literal l = m := by
  rw [normal, mem_standardize_clause]
  exact exists_congr fun l => and_congr_right fun hl => and_iff_right (h.clashFree l hl)

theorem literal_mem_normal (h : NormalForm ls) : ρ.literal l ∈ ρ.normal ls ↔ l ∈ ls := by
  simp [mem_normal h]

theorem negate_literal_mem_normal (h : NormalForm ls) :
    (ρ.literal l).negate ∈ ρ.normal ls ↔ l.negate ∈ ls := by
  rw [← literal_negate, literal_mem_normal h]

theorem normal_inj (hls : NormalForm ls) (hms : NormalForm ms) :
    ρ.normal ls = ρ.normal ms ↔ ls = ms := by
  refine ⟨fun h => hls.ext hms fun l => ?_, fun h => h ▸ rfl⟩
  rw [← literal_mem_normal (ρ := ρ) hls, h, literal_mem_normal hms]

theorem isEmpty_eq (ha : NormalForm a.literals) (hc : c.literals = ρ.normal a.literals) :
    c.isEmpty = a.isEmpty := by
  rw [Bool.eq_iff_iff, Clause.isEmpty_iff, Clause.isEmpty_iff, hc]
  simp [List.eq_nil_iff_forall_not_mem, mem_normal ha]

/-- It makes no difference whether a clause is cleaned before it is renamed. -/
theorem literals_standardize_clause (c : Clause) :
    (ρ.clause c).standardize.literals = ρ.normal c.standardize.literals := by
  refine (Clause.normalForm_standardize _).ext (normalForm_normal _) fun m => ?_
  rw [mem_normal (Clause.normalForm_standardize c), mem_standardize_clause]
  simp only [Clause.mem_standardize, and_assoc]

section Resolvents

variable {b d r s : Clause} (ha : NormalForm a.literals) (hb : NormalForm b.literals)
  (hc : c.literals = ρ.normal a.literals) (hd : d.literals = ρ.normal b.literals)
include ha hb hc hd

theorem renamed_of_mem_resolve (h : r ∈ resolve a b) (h' : s ∈ resolve c d) :
    s.literals = ρ.normal r.literals := by
  have hr := normalForm_of_mem_resolve h
  have hnc : NormalForm c.literals := hc ▸ normalForm_normal _
  have hnd : NormalForm d.literals := hd ▸ normalForm_normal _
  refine (normalForm_of_mem_resolve h').ext (normalForm_normal _) fun m => ?_
  rw [hnc.mem_resolvent hnd h', hc, hd, mem_normal hr]
  constructor
  · rintro ⟨hm, hma, hmb⟩
    -- the literal is the image of one that the same parent has
    obtain ⟨l, rfl, hl⟩ : ∃ l, ρ.literal l = m ∧ (l ∈ a.literals ∨ l ∈ b.literals) := by
      rcases hm with hm | hm
      · obtain ⟨l, hl, rfl⟩ := (mem_normal ha).mp hm
        exact ⟨l, rfl, .inl hl⟩
      · obtain ⟨l, hl, rfl⟩ := (mem_normal hb).mp hm
        exact ⟨l, rfl, .inr hl⟩
    rw [negate_literal_mem_normal ha] at hma
    rw [negate_literal_mem_normal hb] at hmb
    exact ⟨l, (ha.mem_resolvent hb h).mpr ⟨hl, hma, hmb⟩, rfl⟩
  · rintro ⟨l, hl, rfl⟩
    obtain ⟨hl, hla, hlb⟩ := (ha.mem_resolvent hb h).mp hl
    rw [literal_mem_normal ha, literal_mem_normal hb, negate_literal_mem_normal ha,
      negate_literal_mem_normal hb]
    exact ⟨hl, hla, hlb⟩

theorem exists_mem_resolve_renamed (h : r ∈ resolve a b) :
    ∃ s ∈ resolve c d, s.literals = ρ.normal r.literals := by
  obtain ⟨l, hl, hn⟩ := exists_clash_of_mem_resolve h
  rw [← literal_mem_normal (ρ := ρ) ha, ← hc] at hl
  rw [← negate_literal_mem_normal (ρ := ρ) hb, ← hd] at hn
  obtain ⟨s, hs⟩ := exists_mem_resolve hl hn
  exact ⟨s, hs, renamed_of_mem_resolve ha hb hc hd h hs⟩

theorem exists_mem_resolve_of_renamed (h' : s ∈ resolve c d) :
    ∃ r ∈ resolve a b, s.literals = ρ.normal r.literals := by
  obtain ⟨m, hm, hn⟩ := exists_clash_of_mem_resolve h'
  rw [hc, mem_normal ha] at hm
  obtain ⟨l, hl, rfl⟩ := hm
  rw [hd, negate_literal_mem_normal hb] at hn
  obtain ⟨r, hr⟩ := exists_mem_resolve hl hn
  exact ⟨r, hr, renamed_of_mem_resolve ha hb hc hd hr h'⟩

end Resolvents

/-- The clauses of `ds` are those of `cs`, all in normal form, with their literals renamed. -/
structure Renames (ρ : Renaming) (cs ds : List Clause) : Prop where
  normalForm : ∀ c ∈ cs, NormalForm c.literals
  forth : ∀ c ∈ cs, ∃ d ∈ ds, d.literals = ρ.normal c.literals
  back : ∀ d ∈ ds, ∃ c ∈ cs, d.literals = ρ.normal c.literals

section Derivations

variable {kb kb' : List Clause} {n : ℕ}

theorem Renames.normalForm_of_derivation (h : Renames ρ kb kb') (hd : Derivation kb kb n ls) :
    NormalForm ls := by
  cases hd with
  | given hc => exact h.normalForm _ hc
  | resolve _ _ hr _ => exact normalForm_of_mem_resolve hr

theorem Renames.derivation_normal (h : Renames ρ kb kb') (hd : Derivation kb kb n ls) :
    Derivation kb' kb' n (ρ.normal ls) := by
  induction hd with
  | given hc =>
    obtain ⟨d, hd, heq⟩ := h.forth _ hc
    exact heq ▸ .given hd
  | @resolve n ls k r hd hk hr hne ih =>
    obtain ⟨k', hk', heq⟩ := h.forth k hk
    obtain ⟨r', hr', heq'⟩ := exists_mem_resolve_renamed (d := { literals := ρ.normal ls })
      (h.normalForm k hk) (h.normalForm_of_derivation hd) heq rfl hr
    rw [← heq']
    exact .resolve ih hk' hr' ((isEmpty_eq (normalForm_of_mem_resolve hr) heq').trans hne)

theorem Renames.exists_derivation (h : Renames ρ kb kb') (hd : Derivation kb' kb' n ms) :
    ∃ ls, Derivation kb kb n ls ∧ ms = ρ.normal ls := by
  induction hd with
  | given hd =>
    obtain ⟨c, hc, heq⟩ := h.back _ hd
    exact ⟨c.literals, .given hc, heq⟩
  | @resolve n ms k' r' _ hk' hr' hne ih =>
    obtain ⟨ls, hls, rfl⟩ := ih
    obtain ⟨k, hk, heq⟩ := h.back k' hk'
    obtain ⟨r, hr, heq'⟩ := exists_mem_resolve_of_renamed (b := { literals := ls })
      (h.normalForm k hk) (h.normalForm_of_derivation hls) heq rfl hr'
    rw [isEmpty_eq (normalForm_of_mem_resolve hr) heq'] at hne
    exact ⟨r.literals, .resolve hls hk hr hne, heq'⟩

theorem Renames.derivation_normal_iff (h : Renames ρ kb kb') (hls : NormalForm ls) :
    Derivation kb' kb' n (ρ.normal ls) ↔ Derivation kb kb n ls := by
  refine ⟨fun hd => ?_, h.derivation_normal⟩
  obtain ⟨ms, hms, heq⟩ := h.exists_derivation hd
  rw [normal_inj hls (h.normalForm_of_derivation hms)] at heq
  exact heq ▸ hms

end Derivations

section Closures

variable {cs : List Clause} {limit : Option ℤ} {d : Clause}

theorem isEmpty_standardize_clause (c : Clause) :
    (ρ.clause c).standardize.isEmpty = c.standardize.isEmpty :=
  isEmpty_eq (Clause.normalForm_standardize c) (literals_standardize_clause c)

theorem renames_kb (ρ : Renaming) (cs : List Clause) :
    Renames ρ (KnowledgeBase.ofList cs).toList
      (KnowledgeBase.ofList (cs.map ρ.clause)).toList where
  normalForm c hc := KnowledgeBase.normalForm_of_mem hc
  forth c hc := by
    obtain ⟨e, he, hne, heq⟩ := KnowledgeBase.mem_clauses_ofList.mp (ClauseSet.mem_of_mem_toList hc)
    rw [← isEmpty_standardize_clause (ρ := ρ)] at hne
    refine ClauseSet.mem_iff.mp (KnowledgeBase.mem_clauses_ofList.mpr
      ⟨ρ.clause e, List.mem_map_of_mem he, hne, ?_⟩)
    rw [← heq, literals_standardize_clause]
  back d hd := by
    obtain ⟨e', he', hne, heq⟩ := KnowledgeBase.mem_clauses_ofList.mp (ClauseSet.mem_of_mem_toList hd)
    obtain ⟨e, he, rfl⟩ := List.mem_map.mp he'
    rw [isEmpty_standardize_clause] at hne
    obtain ⟨c, hc, heq'⟩ := ClauseSet.mem_iff.mp
      (KnowledgeBase.mem_clauses_ofList.mpr ⟨e, he, hne, rfl⟩)
    exact ⟨c, hc, by rw [heq', ← heq, literals_standardize_clause]⟩

theorem mem_closure_map_iff (ρ : Renaming) : ms ∈ (closure (cs.map ρ.clause) limit).known ↔
    ∃ ls, ls ∈ (closure cs limit).known ∧ ms = ρ.normal ls := by
  have h := renames_kb ρ cs
  simp only [mem_closure_iff]
  constructor
  · rintro ⟨n, hn, hd⟩
    obtain ⟨ls, hls, rfl⟩ := h.exists_derivation hd
    exact ⟨ls, ⟨n, hn, hls⟩, rfl⟩
  · rintro ⟨ls, ⟨n, hn, hd⟩, rfl⟩
    exact ⟨n, hn, h.derivation_normal hd⟩

/-- The shortest derivations are those that there were, so renaming keeps steps. -/
theorem step_eq_of_literals_eq (hzero : ∀ c ∈ cs, c.step = 0) (hc : c ∈ (closure cs limit).toList)
    (hd : d ∈ (closure (cs.map ρ.clause) limit).toList) (heq : d.literals = ρ.normal c.literals) :
    d.step = c.step := by
  have hzero' : ∀ d ∈ cs.map ρ.clause, d.step = 0 := by
    rintro _ hmem
    obtain ⟨e, he, rfl⟩ := List.mem_map.mp hmem
    exact hzero e he
  obtain ⟨n, hn, hleast⟩ := isLeast_step_of_mem_closure hzero hc
  obtain ⟨n', hn', hleast'⟩ := isLeast_step_of_mem_closure hzero' hd
  simp only [heq, (renames_kb ρ cs).derivation_normal_iff (normalForm_of_mem_closure hc)] at hleast'
  rw [hn, hn', hleast'.unique hleast]

theorem mem_pairs_map_iff (hzero : ∀ c ∈ cs, c.step = 0) {p : List Literal × ℤ} :
    p ∈ (closure (cs.map ρ.clause) limit).toList.map (fun d => (d.literals, d.step)) ↔
      p ∈ (closure cs limit).toList.map fun c => (ρ.normal c.literals, c.step) := by
  simp only [List.mem_map]
  constructor
  · rintro ⟨d, hd, rfl⟩
    obtain ⟨ls, hls, heq⟩ := (mem_closure_map_iff ρ).mp (ClauseSet.mem_of_mem_toList hd)
    obtain ⟨c, hc, rfl⟩ := ClauseSet.mem_iff.mp hls
    exact ⟨c, hc, by rw [heq, step_eq_of_literals_eq hzero hc hd heq]⟩
  · rintro ⟨c, hc, rfl⟩
    obtain ⟨d, hd, heq⟩ := ClauseSet.mem_iff.mp ((mem_closure_map_iff ρ).mpr
      ⟨c.literals, ClauseSet.mem_of_mem_toList hc, rfl⟩)
    exact ⟨d, hd, by rw [heq, step_eq_of_literals_eq hzero hc hd heq]⟩

theorem nodup_normal_step (ρ : Renaming) (cs : List Clause) (limit : Option ℤ) :
    ((closure cs limit).toList.map fun c => (ρ.normal c.literals, c.step)).Nodup := by
  refine List.Nodup.map_on (fun c hc d hd heq => ?_) (.of_map _ (closure cs limit).known.distinct)
  have hls := (normal_inj (normalForm_of_mem_closure hc) (normalForm_of_mem_closure hd)).mp
    (congrArg Prod.fst heq)
  exact List.inj_on_of_nodup_map (closure cs limit).known.distinct hc hd hls

theorem dropped_map_eq_nil : (KnowledgeBase.ofList (cs.map ρ.clause)).dropped = [] ↔
    (KnowledgeBase.ofList cs).dropped = [] := by
  simp [KnowledgeBase.dropped_ofList, List.filter_eq_nil_iff, isEmpty_standardize_clause]

theorem contradictions_map_eq_nil : (closure (cs.map ρ.clause)).contradictions = [] ↔
    (closure cs).contradictions = [] := by
  have h := renames_kb ρ cs
  simp only [List.eq_nil_iff_forall_not_mem, mem_contradictions_closure]
  constructor
  · rintro hnone r ⟨k, hk, q, hq, hr, hempty⟩
    obtain ⟨k', hk', heqk⟩ := h.forth k hk
    obtain ⟨q', hq', heqq⟩ := ClauseSet.mem_iff.mp ((mem_closure_map_iff ρ).mpr
      ⟨q.literals, ClauseSet.mem_of_mem_toList hq, rfl⟩)
    obtain ⟨r', hr', heq⟩ := exists_mem_resolve_renamed (h.normalForm k hk)
      (normalForm_of_mem_closure hq) heqk heqq hr
    exact hnone r' ⟨k', hk', q', hq', hr',
      (isEmpty_eq (normalForm_of_mem_resolve hr) heq).trans hempty⟩
  · rintro hnone r' ⟨k', hk', q', hq', hr', hempty⟩
    obtain ⟨k, hk, heqk⟩ := h.back k' hk'
    obtain ⟨ls, hls, heqq⟩ := (mem_closure_map_iff ρ).mp (ClauseSet.mem_of_mem_toList hq')
    obtain ⟨q, hq, rfl⟩ := ClauseSet.mem_iff.mp hls
    obtain ⟨r, hr, heq⟩ := exists_mem_resolve_of_renamed (h.normalForm k hk)
      (normalForm_of_mem_closure hq) heqk heqq hr'
    rw [isEmpty_eq (normalForm_of_mem_resolve hr) heq] at hempty
    exact hnone r ⟨k, hk, q, hq, hr, hempty⟩

end Closures

end Renaming

/-- Renaming the clauses, all at step 0, renames what their closure holds under any limit on the
rounds, and leaves every clause at its step. An empty clause is met in the closure of the renamed
clauses just if one is met in theirs. -/
theorem closure_renaming (ρ : Renaming) (cs : List Clause) (hzero : ∀ c ∈ cs, c.step = 0) :
    (∀ limit, ((closure (cs.map ρ.clause) limit).toList.map fun d => (d.literals, d.step)).Perm
        ((closure cs limit).toList.map fun c => ((ρ.clause c).standardize.literals, c.step)))
      ∧ ((closure (cs.map ρ.clause)).empties ≠ [] ↔ (closure cs).empties ≠ []) := by
  refine ⟨fun limit => ?_, not_congr ?_⟩
  · exact (List.perm_ext_iff_of_nodup (nodup_literals_step _)
      (Renaming.nodup_normal_step ρ cs limit)).mpr fun _ => Renaming.mem_pairs_map_iff hzero
  · simp only [Closure.empties, List.append_eq_nil_iff, kb_closure, Renaming.dropped_map_eq_nil,
      Renaming.contradictions_map_eq_nil]

/-- Exchanges `A` and `C`, and denies `C` where `A` was asserted. -/
def exchange : Renaming where
  image a := if a = "A" then ⟨false, "C"⟩ else if a = "C" then ⟨true, "A"⟩ else ⟨true, a⟩
  atom_inj a b h := by grind

/-- The chain and that not `C`, from which a contradiction follows before and after the exchange. -/
theorem closure_renaming_exchange :
    let cs : List Clause := ⟨[⟨false, "C"⟩], [], 0⟩ :: chain
    (∀ c ∈ cs, c.step = 0)
      ∧ ((closure (cs.map exchange.clause)).toList.map fun d => (d.literals, d.step)).Perm
          ((closure cs).toList.map fun c => ((exchange.clause c).standardize.literals, c.step))
      ∧ (closure cs).empties ≠ [] ∧ (closure (cs.map exchange.clause)).empties ≠ [] := by
  intro cs
  have hzero : ∀ c ∈ cs, c.step = 0 := by decide
  have hempties : (closure cs).empties ≠ [] := by decide
  obtain ⟨hperm, hiff⟩ := closure_renaming exchange cs hzero
  exact ⟨hzero, hperm none, hempties, hiff.mpr hempties⟩

end Resolution
