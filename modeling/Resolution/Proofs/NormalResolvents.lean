import Resolution.Proofs.Rounds

/-!
# Resolvents of normal forms

A resolvent of two normal forms keeps the literals of both whose negation occurs in neither
(`NormalForm.mem_resolvent`), whichever pair of positions it is taken on: all that clashes between
the two clauses goes with the pair. Only where nothing else clashes it is the resolvent of
textbooks (`NormalForm.mem_resolvent_of_once`). Whatever the clauses are, taking them in the other
order changes the source of a resolvent and not its literals (`exists_mem_resolve_swap`).
-/

namespace Resolution

section Positions

variable {ls : List Literal} {l m : Literal} {i : ℕ}

/-- A normal form holds a literal at one position only. -/
theorem NormalForm.mem_eraseIdx (h : NormalForm ls) (hl : ls[i]? = some l) :
    m ∈ ls.eraseIdx i ↔ m ∈ ls ∧ m ≠ l := by
  have hnodup : ls.Nodup := h.increasing.nodup
  obtain ⟨hi, -⟩ := List.getElem?_eq_some_iff.mp hl
  rw [List.mem_eraseIdx_iff_getElem?]
  constructor
  · rintro ⟨j, hj, hm⟩
    refine ⟨List.mem_of_getElem? hm, fun heq => hj ?_⟩
    subst heq
    exact ((List.getElem?_inj hi hnodup).mp (hl.trans hm.symm)).symm
  · rintro ⟨hm, hne⟩
    obtain ⟨j, hj⟩ := List.mem_iff_getElem?.mp hm
    refine ⟨j, fun heq => hne ?_, hj⟩
    subst heq
    exact Option.some.inj (hj.symm.trans hl)

end Positions

section Clashes

variable {a b : Clause} {l : Literal}

/-- The literals of `a` whose negation is in `b`. -/
def clashes (a b : Clause) : List Literal :=
  a.literals.filter fun l => l.negate ∈ b.literals

theorem mem_clashes : l ∈ clashes a b ↔ l ∈ a.literals ∧ l.negate ∈ b.literals := by
  simp [clashes]

theorem eq_of_mem_of_length_le_one {α : Type*} {x y : α} :
    ∀ {xs : List α}, xs.length ≤ 1 → x ∈ xs → y ∈ xs → x = y
  | [], _, hx, _ => absurd hx List.not_mem_nil
  | [_], _, hx, hy => (List.mem_singleton.mp hx).trans (List.mem_singleton.mp hy).symm
  | _ :: _ :: _, h, _, _ => by simp at h

theorem length_le_one_of_forall_eq {α : Type*} :
    ∀ {xs : List α}, xs.Nodup → (∀ x ∈ xs, ∀ y ∈ xs, x = y) → xs.length ≤ 1
  | [], _, _ => Nat.zero_le 1
  | [_], _, _ => le_rfl
  | x :: y :: _, hnodup, h => by
    rw [h x (by simp) y (by simp)] at hnodup
    simp at hnodup

theorem eq_of_length_clashes_le_one (h : (clashes a b).length ≤ 1) (hl : l ∈ a.literals)
    (hn : l.negate ∈ b.literals) : ∀ k ∈ a.literals, k.negate ∈ b.literals → k = l :=
  fun _ hk hkn => eq_of_mem_of_length_le_one h (mem_clashes.mpr ⟨hk, hkn⟩) (mem_clashes.mpr ⟨hl, hn⟩)

end Clashes

section Resolvents

variable {a b r : Clause} {l m : Literal}

theorem exists_mem_resolve (hl : l ∈ a.literals) (hn : l.negate ∈ b.literals) :
    ∃ r, r ∈ resolve a b := by
  obtain ⟨i, hi⟩ := List.mem_iff_getElem?.mp hl
  obtain ⟨j, hj⟩ := List.mem_iff_getElem?.mp hn
  exact ⟨_, mem_resolve.mpr ⟨i, j, l, hi, hj, rfl⟩⟩

theorem exists_clash_of_mem_resolve (h : r ∈ resolve a b) :
    ∃ l ∈ a.literals, l.negate ∈ b.literals := by
  obtain ⟨i, j, l, hl, hn, -⟩ := mem_resolve.mp h
  exact ⟨l, List.mem_of_getElem? hl, List.mem_of_getElem? hn⟩

theorem NormalForm.resolve_self (ha : NormalForm a.literals) : resolve a a = [] := by
  refine List.eq_nil_iff_forall_not_mem.mpr fun r hr => ?_
  obtain ⟨l, hl, hn⟩ := exists_clash_of_mem_resolve hr
  exact ha.clashFree l hl hn

/-- Of two normal forms a pair that clashes leaves all but its two literals. -/
theorem NormalForm.mem_remainders {i j : ℕ} (ha : NormalForm a.literals)
    (hb : NormalForm b.literals) (hl : a.literals[i]? = some l)
    (hn : b.literals[j]? = some l.negate) :
    m ∈ a.literals.eraseIdx i ++ b.literals.eraseIdx j
      ↔ (m ∈ a.literals ∨ m ∈ b.literals) ∧ m ≠ l ∧ m ≠ l.negate := by
  have hna : l.negate ∉ a.literals := ha.clashFree l (List.mem_of_getElem? hl)
  have hlb : l ∉ b.literals := fun hlb => hb.clashFree l hlb (List.mem_of_getElem? hn)
  rw [List.mem_append, ha.mem_eraseIdx hl, hb.mem_eraseIdx hn]
  constructor
  · rintro (⟨hm, hne⟩ | ⟨hm, hne⟩)
    · exact ⟨.inl hm, hne, fun heq => hna (heq ▸ hm)⟩
    · exact ⟨.inr hm, fun heq => hlb (heq ▸ hm), hne⟩
  · rintro ⟨hm | hm, hne, hne'⟩
    · exact .inl ⟨hm, hne⟩
    · exact .inr ⟨hm, hne'⟩

theorem NormalForm.mem_resolvent (ha : NormalForm a.literals) (hb : NormalForm b.literals)
    (h : r ∈ resolve a b) :
    m ∈ r.literals ↔ (m ∈ a.literals ∨ m ∈ b.literals)
      ∧ m.negate ∉ a.literals ∧ m.negate ∉ b.literals := by
  obtain ⟨i, j, l, hl, hn, rfl⟩ := mem_resolve.mp h
  have hla : l ∈ a.literals := List.mem_of_getElem? hl
  have hnb : l.negate ∈ b.literals := List.mem_of_getElem? hn
  have hmem : m ∈ (resolventAt a b i j).literals
      ↔ m ∈ a.literals.eraseIdx i ++ b.literals.eraseIdx j
        ∧ m.negate ∉ a.literals.eraseIdx i ++ b.literals.eraseIdx j := Clause.mem_standardize
  rw [hmem, ha.mem_remainders hb hl hn, ha.mem_remainders hb hl hn]
  constructor
  · rintro ⟨⟨hm, hne, hne'⟩, hnot⟩
    -- the negation of a literal other than the two of the pair is none of the two either
    have hneg : m.negate ≠ l := fun heq => hne' (Literal.negate_eq_iff.mp heq)
    have hneg' : m.negate ≠ l.negate := fun heq => hne (Literal.negate_inj.mp heq)
    exact ⟨hm, fun hma => hnot ⟨.inl hma, hneg, hneg'⟩, fun hmb => hnot ⟨.inr hmb, hneg, hneg'⟩⟩
  · rintro ⟨hm, hma, hmb⟩
    refine ⟨⟨hm, fun heq => hmb (heq ▸ hnb), fun heq => hma ?_⟩, fun hnot => ?_⟩
    · rw [heq, Literal.negate_negate]
      exact hla
    · exact hnot.1.elim hma hmb

/-- Whichever clash the pivot is, at least its two literals go. -/
theorem NormalForm.mem_of_mem_resolvent (ha : NormalForm a.literals) (hb : NormalForm b.literals)
    (hl : l ∈ a.literals) (hn : l.negate ∈ b.literals) (h : r ∈ resolve a b)
    (hm : m ∈ r.literals) : m ∈ a.literals ∧ m ≠ l ∨ m ∈ b.literals ∧ m ≠ l.negate := by
  obtain ⟨hmem, hma, hmb⟩ := (ha.mem_resolvent hb h).mp hm
  have hne : m ≠ l := fun heq => hmb (heq ▸ hn)
  have hne' : m ≠ l.negate := fun heq => hma (by rwa [heq, Literal.negate_negate])
  exact hmem.imp (⟨·, hne⟩) (⟨·, hne'⟩)

/-- Where no other pair clashes, only the two literals of the pivot go. -/
theorem NormalForm.mem_resolvent_of_once (ha : NormalForm a.literals) (hb : NormalForm b.literals)
    (hl : l ∈ a.literals) (hn : l.negate ∈ b.literals)
    (honce : ∀ k ∈ a.literals, k.negate ∈ b.literals → k = l) (h : r ∈ resolve a b) :
    m ∈ r.literals ↔ m ∈ a.literals ∧ m ≠ l ∨ m ∈ b.literals ∧ m ≠ l.negate := by
  refine ⟨ha.mem_of_mem_resolvent hb hl hn h, fun hm => ?_⟩
  rw [ha.mem_resolvent hb h]
  rcases hm with ⟨hm, hne⟩ | ⟨hm, hne⟩
  · exact ⟨.inl hm, ha.clashFree m hm, fun hmb => hne (honce m hm hmb)⟩
  · refine ⟨.inr hm, fun hma => hne ?_, hb.clashFree m hm⟩
    have heq := honce m.negate hma (by rwa [Literal.negate_negate])
    exact Literal.negate_eq_iff.mp heq

/-- What is left of the two clauses is joined the other way round, and the literals are the same. -/
theorem literals_resolventAt_swap (a b : Clause) (i j : ℕ) :
    (resolventAt b a j i).literals = (resolventAt a b i j).literals :=
  Clause.literals_standardize_congr fun _ => by simp only [List.mem_append, or_comm]

theorem exists_mem_resolve_swap (h : r ∈ resolve a b) :
    ∃ s ∈ resolve b a, s.literals = r.literals := by
  obtain ⟨i, j, l, hl, hn, rfl⟩ := mem_resolve.mp h
  have hs : resolventAt b a j i ∈ resolve b a :=
    mem_resolve.mpr ⟨j, i, l.negate, hn, by rwa [Literal.negate_negate], rfl⟩
  exact ⟨_, hs, literals_resolventAt_swap a b i j⟩

end Resolvents

end Resolution
