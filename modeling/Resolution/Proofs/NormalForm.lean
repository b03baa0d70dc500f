import Mathlib.Data.List.Sort
import Resolution.Clause.Normal

/-!
# Normal forms by their literals

Sorting permutes literals, and cleaning keeps one copy of each literal whose negation does not
occur (`mem_clean`). So the normal form of a clause is strictly increasing and free of clashes, and
it is the only such sequence with its literals (`NormalForm.ext`): what is in normal form already
is left as it is, and the normal form depends on the literals that occur and on nothing else
(`Clause.literals_standardize_congr`).
-/

namespace Resolution

/-- Strictly increasing, and without a literal beside its negation. -/
structure NormalForm (ls : List Literal) : Prop where
  increasing : ls.Pairwise (· < ·)
  clashFree : ∀ l ∈ ls, l.negate ∉ ls

instance : Std.Irrefl fun l m : Literal => l < m := ⟨Literal.lt_irrefl⟩

instance : Std.Antisymm fun l m : Literal => l < m :=
  ⟨fun l _ h h' => absurd (Literal.lt_trans h h') (Literal.lt_irrefl l)⟩

section Sorting

variable (l : Literal) (ls : List Literal)

theorem perm_insertLiteral : (insertLiteral l ls).Perm (l :: ls) := by
  induction ls with
  | nil => exact .refl _
  | cons m ms ih =>
    unfold insertLiteral
    split_ifs
    · exact (ih.cons m).trans (.swap l m ms)
    · exact .refl _

theorem perm_sortLiterals : (sortLiterals ls).Perm ls := by
  induction ls with
  | nil => exact .refl _
  | cons l ls ih => exact (perm_insertLiteral l _).trans (ih.cons l)

theorem sorted_insertLiteral {ls : List Literal} (h : ls.Pairwise fun l m => ¬ m < l) :
    (insertLiteral l ls).Pairwise fun l m => ¬ m < l := by
  induction ls with
  | nil => simp [insertLiteral]
  | cons m ms ih =>
    obtain ⟨hm, hms⟩ := List.pairwise_cons.mp h
    unfold insertLiteral
    split_ifs with hlt
    · refine List.pairwise_cons.mpr ⟨fun k hk => ?_, ih hms⟩
      rcases List.mem_cons.mp ((perm_insertLiteral l ms).mem_iff.mp hk) with rfl | hk
      · exact fun hkm => Literal.lt_irrefl _ (Literal.lt_trans hkm hlt)
      · exact hm k hk
    · refine List.pairwise_cons.mpr ⟨fun k hk hkl => ?_, h⟩
      rcases List.mem_cons.mp hk with rfl | hk
      · exact hlt hkl
      · -- `k` is not below `m`, and `m` is not below `l`
        rcases Literal.lt_or_eq_or_gt k m with hkm | rfl | hmk
        · exact hm k hk hkm
        · exact hlt hkl
        · exact hlt (Literal.lt_trans hmk hkl)

theorem sorted_sortLiterals : (sortLiterals ls).Pairwise fun l m => ¬ m < l := by
  induction ls with
  | nil => exact .nil
  | cons l ls ih => exact sorted_insertLiteral l ih

theorem increasing_of_sorted {ls : List Literal} (h : ls.Pairwise fun l m => ¬ m < l)
    (hne : ls.Pairwise (· ≠ ·)) : ls.Pairwise (· < ·) := by
  refine (h.and hne).imp fun {l m} ⟨hml, hlm⟩ => ?_
  rcases Literal.lt_or_eq_or_gt l m with hlt | heq | hgt
  · exact hlt
  · exact absurd heq hlm
  · exact absurd hgt hml

theorem normalForm_sortLiterals {ls : List Literal} (hnodup : ls.Nodup)
    (hclash : ∀ l ∈ ls, l.negate ∉ ls) : NormalForm (sortLiterals ls) where
  increasing :=
    increasing_of_sorted (sorted_sortLiterals ls) ((perm_sortLiterals ls).nodup_iff.mpr hnodup)
  clashFree _ hl hn :=
    hclash _ ((perm_sortLiterals ls).mem_iff.mp hl) ((perm_sortLiterals ls).mem_iff.mp hn)

end Sorting

section Cleaning

variable {l : Literal}

/-- Cleaning keeps the live literals whose negation is not live. -/
theorem mem_cleanFrom {live ls : List Literal} :
    l ∈ cleanFrom live ls ↔ l ∈ ls ∧ l ∈ live ∧ l.negate ∉ live := by
  induction ls generalizing live with
  | nil => simp [cleanFrom]
  | cons m ms ih =>
    unfold cleanFrom
    have hn : l.negate = m ↔ l = m.negate := Literal.negate_eq_iff
    have hn' : l.negate = m.negate ↔ l = m := Literal.negate_inj
    -- only `m` and its negation are settled by the step
    by_cases hl : l = m
    · subst hl
      split_ifs <;> simp_all
    by_cases hl' : l = m.negate
    · subst hl'
      split_ifs <;> simp_all
    · split_ifs <;> simp_all

theorem cleanFrom_sublist (live ls : List Literal) : (cleanFrom live ls).Sublist ls := by
  induction ls generalizing live with
  | nil => exact .refl _
  | cons m ms ih =>
    unfold cleanFrom
    dsimp only
    split_ifs
    · exact (ih _).cons m
    · exact (ih _).cons_cons m
    · exact (ih _).cons m

theorem nodup_cleanFrom (live ls : List Literal) : (cleanFrom live ls).Nodup := by
  induction ls generalizing live with
  | nil => exact .nil
  | cons m ms ih =>
    unfold cleanFrom
    dsimp only
    split_ifs
    · exact ih _
    · refine List.nodup_cons.mpr ⟨fun hm => ?_, ih _⟩
      have := (mem_cleanFrom.mp hm).2.1
      simp at this
    · exact ih _

theorem mem_clean {ls : List Literal} : l ∈ clean ls ↔ l ∈ ls ∧ l.negate ∉ ls := by
  rw [clean, mem_cleanFrom]
  tauto

theorem normalForm_clean {ls : List Literal} (h : ls.Pairwise fun l m => ¬ m < l) :
    NormalForm (clean ls) where
  increasing := increasing_of_sorted (h.sublist (cleanFrom_sublist ls ls)) (nodup_cleanFrom ls ls)
  clashFree := fun _ hl hn => (mem_clean.mp hl).2 (mem_clean.mp hn).1

end Cleaning

/-- Sequences in normal form are equal when they have the same literals. -/
theorem NormalForm.ext {as bs : List Literal} (ha : NormalForm as) (hb : NormalForm bs)
    (h : ∀ l, l ∈ as ↔ l ∈ bs) : as = bs :=
  ha.increasing.eq_of_mem_iff hb.increasing h

namespace Clause

variable {c : Clause} {l : Literal}

theorem normalForm_standardize (c : Clause) : NormalForm c.standardize.literals :=
  normalForm_clean (sorted_sortLiterals _)

theorem mem_standardize :
    l ∈ c.standardize.literals ↔ l ∈ c.literals ∧ l.negate ∉ c.literals := by
  have hp := perm_sortLiterals c.literals
  rw [standardize, mem_clean, hp.mem_iff, hp.mem_iff]

example : standardize ⟨[⟨true, "B"⟩, ⟨true, "A"⟩, ⟨true, "B"⟩, ⟨false, "A"⟩], [], 0⟩
    = ⟨[⟨true, "B"⟩], [], 0⟩ := by decide

theorem standardize_of_normalForm (h : NormalForm c.literals) : c.standardize = c := by
  have hls : c.standardize.literals = c.literals := by
    refine (normalForm_standardize c).ext h fun l => ?_
    rw [mem_standardize]
    exact ⟨And.left, fun hl => ⟨hl, h.clashFree l hl⟩⟩
  cases c
  simp_all [standardize]

theorem standardize_eq_self_iff : c.standardize = c ↔ NormalForm c.literals :=
  ⟨fun h => h ▸ normalForm_standardize c, standardize_of_normalForm⟩

/-- The literal occurs in the clause, and its negation does not. -/
def Survives (c : Clause) (l : Literal) : Prop :=
  l ∈ c.literals ∧ l.negate ∉ c.literals

theorem literals_standardize_eq_iff {d : Clause} : c.standardize.literals = d.standardize.literals
    ↔ ∀ l, c.Survives l ↔ d.Survives l := by
  constructor
  · intro h l
    rw [Survives, Survives, ← mem_standardize, ← mem_standardize, h]
  · intro h
    refine (normalForm_standardize c).ext (normalForm_standardize d) fun l => ?_
    rw [mem_standardize, mem_standardize]
    exact h l

/-- Neither the order of the literals nor how often they are repeated matters. -/
theorem literals_standardize_congr {d : Clause} (h : ∀ l, l ∈ c.literals ↔ l ∈ d.literals) :
    c.standardize.literals = d.standardize.literals :=
  literals_standardize_eq_iff.mpr fun l => and_congr (h l) (not_congr (h l.negate))

/-- The normal form of a clause increases strictly and holds the literals that survive in the
clause. So it is its own normal form, clauses in which the same literals survive share it, and it
stays the same when the literals are reordered or repeated. -/
theorem standardize_canonical (c : Clause) :
    c.standardize.literals.Pairwise (· < ·)
      ∧ (∀ l, l ∈ c.standardize.literals ↔ c.Survives l)
      ∧ c.standardize.standardize = c.standardize
      ∧ (∀ d : Clause, c.standardize.literals = d.standardize.literals
        ↔ ∀ l, c.Survives l ↔ d.Survives l)
      ∧ ∀ ls, (∀ l, l ∈ ls ↔ l ∈ c.literals) →
        Clause.standardize { c with literals := ls } = c.standardize := by
  refine ⟨(normalForm_standardize c).increasing, fun l => mem_standardize,
    standardize_of_normalForm (normalForm_standardize c), fun d => literals_standardize_eq_iff,
    fun ls hls => ?_⟩
  have heq : (Clause.standardize { c with literals := ls }).literals = c.standardize.literals :=
    literals_standardize_congr hls
  exact congrArg (Clause.mk · c.source c.step) heq

/-- Where a clause holds `A`, its negation and two more literals, those two survive, in whatever
order and however often its literals are written. -/
theorem standardize_canonical_reordered :
    let c : Clause := ⟨[⟨true, "C"⟩, ⟨true, "A"⟩, ⟨false, "B"⟩, ⟨false, "A"⟩], ["p", "q"], 3⟩
    let ls : List Literal :=
      [⟨false, "A"⟩, ⟨false, "B"⟩, ⟨true, "C"⟩, ⟨false, "B"⟩, ⟨true, "A"⟩, ⟨false, "A"⟩]
    (∀ l, l ∈ ls ↔ l ∈ c.literals)
      ∧ c.standardize = ⟨[⟨false, "B"⟩, ⟨true, "C"⟩], ["p", "q"], 3⟩
      ∧ Clause.standardize { c with literals := ls } = c.standardize := by
  intro c ls
  have hls : ∀ l, l ∈ ls ↔ l ∈ c.literals := by
    intro l
    simp only [ls, c, List.mem_cons, List.not_mem_nil, or_false]
    tauto
  obtain ⟨-, -, -, -, hcongr⟩ := standardize_canonical c
  exact ⟨hls, by decide, hcongr ls hls⟩

end Clause

end Resolution
