import Resolution.Proofs.SingleClash
import Resolution.Proofs.Soundness

/-!
# When a resolvent follows from its parents

A resolvent of two normal forms loses every literal that clashes, so it is part of each resolvent
that textbooks allow. Where one pair clashes it is the only one of these, and follows from its
parents. Where two pairs clash, it does not: one half of each pair, taken from different parents,
satisfies both of them and is no part of the resolvent, so the other atoms can be chosen against it
(`exists_countermodel`).
-/

namespace Resolution

namespace Assignment

/-- An assignment that denies all of the literals, if no two of them clash. -/
def denying (ls : List Literal) : Assignment :=
  fun x => decide (⟨true, x⟩ ∉ ls)

/-- The assignment that makes `l` hold and is `v` on all other atoms. -/
def withLiteral (v : Assignment) (l : Literal) : Assignment :=
  fun x => if x = l.atom then l.positive else v x

variable {v : Assignment} {l m : Literal} {ls : List Literal}

theorem not_holds_denying (hclash : ∀ l ∈ ls, l.negate ∉ ls) (hl : l ∈ ls) :
    ¬ (denying ls).Holds l := by
  obtain ⟨p, x⟩ := l
  cases p with
  | true => simp [Holds, denying, hl]
  | false =>
    have hnot : ⟨true, x⟩ ∉ ls := hclash _ hl
    simp [Holds, denying, hnot]

theorem holds_withLiteral (v : Assignment) (l : Literal) : (v.withLiteral l).Holds l :=
  if_pos rfl

theorem holds_withLiteral_of_ne (h : m.atom ≠ l.atom) : (v.withLiteral l).Holds m ↔ v.Holds m := by
  rw [Holds, withLiteral, if_neg h, Holds]

end Assignment

section Clashes

variable {a b r : Clause} {l m : Literal}

theorem NormalForm.atom_ne_of_mem_resolvent (ha : NormalForm a.literals)
    (hb : NormalForm b.literals) (hl : l ∈ a.literals) (hn : l.negate ∈ b.literals)
    (hr : r ∈ resolve a b) (hm : m ∈ r.literals) : m.atom ≠ l.atom := by
  obtain ⟨-, hma, hmb⟩ := (ha.mem_resolvent hb hr).mp hm
  intro heq
  rcases Literal.eq_or_eq_negate heq with rfl | rfl
  · exact hmb hn
  · rw [Literal.negate_negate] at hma
    exact hma hl

/-- Of two clashes, the literal of the one and the negation of the other satisfy the parents. -/
theorem exists_countermodel (ha : NormalForm a.literals) (hb : NormalForm b.literals)
    (hl : l ∈ a.literals) (hln : l.negate ∈ b.literals) (hm : m ∈ a.literals)
    (hmn : m.negate ∈ b.literals) (hne : l ≠ m) (hr : r ∈ resolve a b) :
    ∃ v : Assignment, v.Satisfies a ∧ v.Satisfies b ∧ ¬ v.Satisfies r := by
  have hatom : l.atom ≠ m.negate.atom := by
    intro heq
    rcases Literal.eq_or_eq_negate heq with rfl | rfl
    · exact ha.clashFree m hm hl
    · exact hne (Literal.negate_negate m)
  let v := ((Assignment.denying r.literals).withLiteral l).withLiteral m.negate
  have hvl : v.Holds l :=
    (Assignment.holds_withLiteral_of_ne hatom).mpr (Assignment.holds_withLiteral _ l)
  refine ⟨v, ⟨l, hl, hvl⟩, ⟨m.negate, hmn, Assignment.holds_withLiteral _ _⟩, ?_⟩
  rintro ⟨k, hk, hvk⟩
  have hkl : k.atom ≠ l.atom := ha.atom_ne_of_mem_resolvent hb hl hln hr hk
  have hkm : k.atom ≠ m.negate.atom :=
    show k.atom ≠ m.atom from ha.atom_ne_of_mem_resolvent hb hm hmn hr hk
  have hdenied : (Assignment.denying r.literals).Holds k :=
    (Assignment.holds_withLiteral_of_ne hkl).mp ((Assignment.holds_withLiteral_of_ne hkm).mp hvk)
  exact Assignment.not_holds_denying (normalForm_of_mem_resolve hr).clashFree hk hdenied

end Clashes

/-- A resolvent of two clauses in normal form holds wherever they do exactly if they clash in one
pair of literals. Its literals are always among those of each resolvent on sets. -/
theorem follows_iff_existsUnique_clash (a b r : Clause) (ha : a.standardize = a)
    (hb : b.standardize = b) (hr : r ∈ resolve a b) :
    ((∀ v : Assignment, v.Satisfies a → v.Satisfies b → v.Satisfies r)
        ↔ ∃! l, l ∈ a.literals ∧ l.negate ∈ b.literals)
      ∧ ∀ l ∈ a.literals, l.negate ∈ b.literals → r.toSet ⊆ resolventOn l a.toSet b.toSet := by
  rw [Clause.standardize_eq_self_iff] at ha hb
  refine ⟨⟨fun hfollows => ?_, fun hunique v hva hvb => ?_⟩, fun l hl hn m hm =>
    ha.mem_of_mem_resolvent hb hl hn hr hm⟩
  · obtain ⟨l, hl, hln⟩ := exists_clash_of_mem_resolve hr
    refine ⟨l, ⟨hl, hln⟩, fun m ⟨hm, hmn⟩ => ?_⟩
    by_contra hne
    obtain ⟨v, hva, hvb, hvr⟩ := exists_countermodel ha hb hm hmn hl hln hne hr
    exact hvr (hfollows v hva hvb)
  · have honce : (clashes a b).length ≤ 1 :=
      length_le_one_of_forall_eq (ha.increasing.nodup.filter _) fun l hl m hm =>
        hunique.unique (mem_clashes.mp hl) (mem_clashes.mp hm)
    exact v.satisfies_of_mem_resolve ha hb honce hr hva hvb

/-- With one clash, in `A`, the resolvent follows. With a second one, in `B`, it does not. -/
theorem follows_iff_existsUnique_clash_twice :
    let a : Clause := ⟨[⟨true, "A"⟩, ⟨true, "B"⟩], [], 0⟩
    let b : Clause := ⟨[⟨false, "A"⟩, ⟨true, "B"⟩, ⟨true, "C"⟩], [], 0⟩
    let r : Clause := ⟨[⟨true, "B"⟩, ⟨true, "C"⟩], [a.name, b.name], 0⟩
    let c : Clause := ⟨[⟨false, "A"⟩, ⟨false, "B"⟩, ⟨true, "C"⟩], [], 0⟩
    let s : Clause := ⟨[⟨true, "C"⟩], [a.name, c.name], 0⟩
    (a.standardize = a ∧ b.standardize = b ∧ r ∈ resolve a b
        ∧ ∀ v : Assignment, v.Satisfies a → v.Satisfies b → v.Satisfies r)
      ∧ (c.standardize = c ∧ s ∈ resolve a c
        ∧ (¬ ∀ v : Assignment, v.Satisfies a → v.Satisfies c → v.Satisfies s)
        ∧ s.toSet ⊆ resolventOn ⟨true, "A"⟩ a.toSet c.toSet
        ∧ s.toSet ⊆ resolventOn ⟨true, "B"⟩ a.toSet c.toSet) := by
  intro a b r c s
  have ha : a.standardize = a := by decide
  have hb : b.standardize = b := by decide
  have hc : c.standardize = c := by decide
  have hr : r ∈ resolve a b := by decide
  have hs : s ∈ resolve a c := by decide
  have hall : ∀ l ∈ a.literals, l.negate ∈ b.literals → l = ⟨true, "A"⟩ := by decide
  have honce : ∃! l, l ∈ a.literals ∧ l.negate ∈ b.literals :=
    ⟨⟨true, "A"⟩, by decide, fun l hl => hall l hl.1 hl.2⟩
  have hA : ⟨true, "A"⟩ ∈ a.literals ∧ Literal.negate ⟨true, "A"⟩ ∈ c.literals := by decide
  have hB : ⟨true, "B"⟩ ∈ a.literals ∧ Literal.negate ⟨true, "B"⟩ ∈ c.literals := by decide
  have htwice : ¬ ∃! l, l ∈ a.literals ∧ l.negate ∈ c.literals := fun h =>
    absurd (h.unique hA hB) (by decide)
  obtain ⟨hiff, hsub⟩ := follows_iff_existsUnique_clash a c s ha hc hs
  exact ⟨⟨ha, hb, hr, (follows_iff_existsUnique_clash a b r ha hb hr).1.mpr honce⟩, hc, hs,
    hiff.not.mpr htwice, hsub _ (by decide) (by decide), hsub _ (by decide) (by decide)⟩

end Resolution
