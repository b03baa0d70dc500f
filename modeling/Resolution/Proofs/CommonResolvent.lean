import Mathlib.Data.Finset.Card
import Resolution.Proofs.NormalResolvents

/-!
# The one resolvent of two normal forms

Two normal forms resolve once for each literal of the one whose negation is in the other
(`length_resolve`), which is once for each atom that they hold with opposite polarity. But every
clash goes, whichever of them a resolvent is taken on, so what is left is the same each time: the
literals over the other atoms, sorted (`NormalForm.literals_of_mem_resolve`). The resolvents are
that many copies of one clause.
-/

namespace Resolution

section Counting

variable {α β : Type*} {xs : List α} {a b : Clause}

theorem length_flatMap_eq_countP {f : α → List β} {p : α → Bool}
    (h : ∀ x, (f x).length = if p x then 1 else 0) : (xs.flatMap f).length = xs.countP p := by
  induction xs with
  | nil => rfl
  | cons x xs ih =>
    rw [List.flatMap_cons, List.length_append, h, ih, List.countP_cons, Nat.add_comm]

theorem countP_zipIdx (p : α → Bool) :
    xs.zipIdx.countP (fun x => p x.1) = xs.countP p := by
  rw [← List.zipIdx_map_fst 0 xs, List.countP_map, List.zipIdx_map_fst]
  rfl

/-- Where no literal repeats on the right, there is one resolvent for each clash. -/
theorem length_resolve (hb : b.literals.Nodup) :
    (resolve a b).length = (clashes a b).length := by
  rw [clashes, ← List.countP_eq_length_filter, ← countP_zipIdx, resolve]
  refine length_flatMap_eq_countP fun x => ?_
  obtain ⟨l, i⟩ := x
  have hisSome : ∀ x : Literal × ℕ, (if x.1 = l.negate then some (resolventAt a b i x.2)
      else none).isSome = decide (x.1 = l.negate) := fun x => by split_ifs with h <;> simp [h]
  have hcount : b.literals.countP (fun m => decide (m = l.negate)) = b.literals.count l.negate :=
    rfl
  simp only [List.length_filterMap_eq_countP, hisSome, decide_eq_true_eq]
  rw [countP_zipIdx (fun m => decide (m = l.negate)), hcount, hb.count]

end Counting

section Atoms

variable {a b : Clause} {l m : Literal} {x : String}

/-- The atoms that occur in `a` and in `b` with opposite polarity. -/
def opposedAtoms (a b : Clause) : Finset String :=
  ((clashes a b).map Literal.atom).toFinset

theorem mem_opposedAtoms :
    x ∈ opposedAtoms a b ↔ ∃ l ∈ a.literals, l.negate ∈ b.literals ∧ l.atom = x := by
  simp [opposedAtoms, mem_clashes, and_assoc]

/-- A normal form has an atom with one polarity only, so clashes are told apart by their atoms. -/
theorem NormalForm.card_opposedAtoms (ha : NormalForm a.literals) :
    (opposedAtoms a b).card = (clashes a b).length := by
  have hnodup : ((clashes a b).map Literal.atom).Nodup := by
    refine (ha.increasing.nodup.filter _).map_on fun l hl m hm heq => ?_
    rcases Literal.eq_or_eq_negate heq with rfl | rfl
    · rfl
    · exact absurd (mem_clashes.mp hl).1 (ha.clashFree m (mem_clashes.mp hm).1)
  rw [opposedAtoms, List.toFinset_card_of_nodup hnodup, List.length_map]

theorem NormalForm.atom_mem_opposedAtoms (ha : NormalForm a.literals) (hb : NormalForm b.literals)
    (hm : m ∈ a.literals ∨ m ∈ b.literals) :
    m.atom ∈ opposedAtoms a b ↔ m.negate ∈ a.literals ∨ m.negate ∈ b.literals := by
  rw [mem_opposedAtoms]
  constructor
  · rintro ⟨l, hl, hn, heq⟩
    rcases Literal.eq_or_eq_negate heq with rfl | rfl
    · exact .inr hn
    · exact .inl hl
  · rintro (hna | hnb)
    · have hma : m ∉ a.literals := fun hma => ha.clashFree m hma hna
      exact ⟨m.negate, hna, by rw [Literal.negate_negate]; exact hm.resolve_left hma, rfl⟩
    · have hmb : m ∉ b.literals := fun hmb => hb.clashFree m hmb hnb
      exact ⟨m, hm.resolve_right hmb, hnb, rfl⟩

end Atoms

section Copies

variable {a b r : Clause} {m : Literal}

/-- The literals of both clauses over other than opposed atoms, each once and in their order. -/
def strippedUnion (a b : Clause) : List Literal :=
  sortLiterals ((a.literals ∪ b.literals).filter fun l => l.atom ∉ opposedAtoms a b)

theorem mem_strippedUnion : m ∈ strippedUnion a b
    ↔ (m ∈ a.literals ∨ m ∈ b.literals) ∧ m.atom ∉ opposedAtoms a b := by
  rw [strippedUnion, (perm_sortLiterals _).mem_iff, List.mem_filter, List.mem_union_iff,
    decide_eq_true_eq]

theorem NormalForm.mem_strippedUnion_iff (ha : NormalForm a.literals) (hb : NormalForm b.literals) :
    m ∈ strippedUnion a b ↔ (m ∈ a.literals ∨ m ∈ b.literals)
      ∧ m.negate ∉ a.literals ∧ m.negate ∉ b.literals := by
  rw [mem_strippedUnion]
  refine and_congr_right fun hm => ?_
  rw [ha.atom_mem_opposedAtoms hb hm, not_or]

theorem NormalForm.normalForm_strippedUnion (ha : NormalForm a.literals)
    (hb : NormalForm b.literals) : NormalForm (strippedUnion a b) := by
  refine normalForm_sortLiterals ((hb.increasing.nodup.union _).filter _) fun l hl hn => ?_
  have hl' : l ∈ strippedUnion a b := (perm_sortLiterals _).mem_iff.mpr hl
  have hn' : l.negate ∈ strippedUnion a b := (perm_sortLiterals _).mem_iff.mpr hn
  obtain ⟨-, hna, hnb⟩ := (ha.mem_strippedUnion_iff hb).mp hl'
  exact ((ha.mem_strippedUnion_iff hb).mp hn').1.elim hna hnb

theorem NormalForm.literals_of_mem_resolve (ha : NormalForm a.literals)
    (hb : NormalForm b.literals) (hr : r ∈ resolve a b) : r.literals = strippedUnion a b := by
  refine (normalForm_of_mem_resolve hr).ext (ha.normalForm_strippedUnion hb) fun m => ?_
  rw [ha.mem_resolvent hb hr, ha.mem_strippedUnion_iff hb]

theorem NormalForm.resolve_eq_replicate (ha : NormalForm a.literals) (hb : NormalForm b.literals) :
    resolve a b
      = List.replicate (opposedAtoms a b).card ⟨strippedUnion a b, [a.name, b.name], 0⟩ := by
  refine List.eq_replicate_iff.mpr ⟨?_, fun r hr => ?_⟩
  · rw [length_resolve hb.increasing.nodup, ha.card_opposedAtoms]
  · obtain ⟨i, j, l, -, -, rfl⟩ := mem_resolve.mp hr
    exact congrArg (Clause.mk · _ _) (ha.literals_of_mem_resolve hb hr)

/-- Nothing is left exactly if each clause holds the negations of the other's literals. -/
theorem NormalForm.isEmpty_resolvent_iff (ha : NormalForm a.literals) (hb : NormalForm b.literals)
    (hr : r ∈ resolve a b) :
    r.isEmpty = true ↔ ∀ l, l ∈ b.literals ↔ l.negate ∈ a.literals := by
  rw [Clause.isEmpty_iff, List.eq_nil_iff_forall_not_mem]
  simp only [ha.mem_resolvent hb hr]
  constructor
  · refine fun h l => ⟨fun hl => ?_, fun hn => ?_⟩
    · by_contra hna
      exact h l ⟨.inr hl, hna, hb.clashFree l hl⟩
    · by_contra hl
      refine h l.negate ⟨.inl hn, ha.clashFree _ hn, ?_⟩
      rwa [Literal.negate_negate]
  · rintro h m ⟨hm | hm, hna, hnb⟩
    · exact hnb ((h _).mpr (by rwa [Literal.negate_negate]))
    · exact hna ((h m).mp hm)

end Copies

/-- Two clauses in normal form have as many resolvents as there are atoms that they hold with
opposite polarity, and all of these are the clause that keeps the literals of both over other
atoms. So they have none if there is no such atom, a clause has none with itself, and a resolvent
is empty exactly if the literals of the one clause are the negations of those of the other. -/
theorem resolve_eq_replicate_of_standardize_eq (a b : Clause) (ha : a.standardize = a)
    (hb : b.standardize = b) :
    resolve a b
        = List.replicate (opposedAtoms a b).card ⟨strippedUnion a b, [a.name, b.name], 0⟩
      ∧ (resolve a b = [] ↔ opposedAtoms a b = ∅)
      ∧ resolve a a = []
      ∧ ∀ r ∈ resolve a b, r.isEmpty = true ↔ ∀ l, l ∈ b.literals ↔ l.negate ∈ a.literals := by
  rw [Clause.standardize_eq_self_iff] at ha hb
  have hcopies := ha.resolve_eq_replicate hb
  refine ⟨hcopies, ?_, ha.resolve_self, fun r hr => ha.isEmpty_resolvent_iff hb hr⟩
  rw [hcopies, List.replicate_eq_nil_iff, Finset.card_eq_zero]

/-- Two clauses that share `C` and clash in `A` and `B` have two resolvents, which are equal. With
the negations of its literals the first has three, which are empty. -/
theorem resolve_eq_replicate_of_standardize_eq_twice :
    let a : Clause := ⟨[⟨false, "A"⟩, ⟨true, "B"⟩, ⟨true, "C"⟩], [], 0⟩
    let b : Clause := ⟨[⟨false, "B"⟩, ⟨true, "A"⟩, ⟨true, "C"⟩, ⟨true, "D"⟩], [], 0⟩
    let c : Clause := ⟨[⟨false, "B"⟩, ⟨false, "C"⟩, ⟨true, "A"⟩], [], 0⟩
    (a.standardize = a ∧ b.standardize = b
        ∧ opposedAtoms a b = {"A", "B"} ∧ strippedUnion a b = [⟨true, "C"⟩, ⟨true, "D"⟩]
        ∧ resolve a b
          = List.replicate (opposedAtoms a b).card ⟨strippedUnion a b, [a.name, b.name], 0⟩)
      ∧ c.standardize = c ∧ (∀ l, l ∈ c.literals ↔ l.negate ∈ a.literals)
        ∧ ∃ r ∈ resolve a c, r.isEmpty = true := by
  intro a b c
  have ha : a.standardize = a := by decide
  have hb : b.standardize = b := by decide
  have hc : c.standardize = c := by decide
  have hempty : (⟨[], [a.name, c.name], 0⟩ : Clause) ∈ resolve a c := by decide
  obtain ⟨-, -, -, hiff⟩ := resolve_eq_replicate_of_standardize_eq a c ha hc
  exact ⟨⟨ha, hb, by decide, by decide, (resolve_eq_replicate_of_standardize_eq a b ha hb).1⟩, hc,
    (hiff _ hempty).mp rfl, _, hempty, rfl⟩

end Resolution
