import Resolution.Proofs.InputResolution
import Resolution.Semantics

/-!
# Unsatisfiable Horn clauses are reported

Forward chaining through Horn clauses forces atoms (`Forced`), and what it forces can be resolved
away: from a clause that denies a forced atom, input resolution derives one that does not and has
nothing new in it (`Forced.removable`). The assignment that makes exactly the forced atoms true
satisfies every clause but those that deny nothing except forced atoms. So if no assignment
satisfies all of them there is such a clause, and input resolution leads from it to the empty one
(`inputDerivable_nil_of_unsatisfiable`), of which no clause that a closure keeps is a part.
-/

namespace Resolution

/-- At most one literal of the clause is positive. -/
def Clause.IsHorn (c : Clause) : Prop :=
  (c.literals.filter Literal.positive).length ≤ 1

instance (c : Clause) : Decidable c.IsHorn :=
  inferInstanceAs (Decidable ((c.literals.filter Literal.positive).length ≤ 1))

theorem Clause.IsHorn.eq_of_mem {c : Clause} (h : c.IsHorn) {a b : String}
    (ha : ⟨true, a⟩ ∈ c.literals) (hb : ⟨true, b⟩ ∈ c.literals) : a = b := by
  have heq := eq_of_mem_of_length_le_one h (List.mem_filter.mpr ⟨ha, rfl⟩)
    (List.mem_filter.mpr ⟨hb, rfl⟩)
  exact congrArg Literal.atom heq

/-- The atoms that the literals deny. -/
def denied (ls : List Literal) : List String :=
  (ls.filter fun l => !l.positive).map Literal.atom

theorem mem_denied {ls : List Literal} {a : String} : a ∈ denied ls ↔ ⟨false, a⟩ ∈ ls := by
  simp only [denied, List.mem_map, List.mem_filter, Bool.not_eq_true']
  constructor
  · rintro ⟨⟨p, b⟩, ⟨hl, rfl⟩, rfl⟩
    exact hl
  · intro h
    exact ⟨_, ⟨h, rfl⟩, rfl⟩

/-- The atoms that forward chaining reaches: a clause forces an atom it asserts once all the atoms
it denies are forced. -/
inductive Forced (cs : List Clause) : String → Prop where
  | head {c : Clause} {a : String} : c ∈ cs → ⟨true, a⟩ ∈ c.literals →
      (∀ b, ⟨false, b⟩ ∈ c.literals → Forced cs b) → Forced cs a

/-- From whatever input resolution derives, it also derives a part that does not deny `a`. -/
def Removable (cs : List Clause) (a : String) : Prop :=
  ∀ ls, InputDerivable cs ls → ∃ ms, InputDerivable cs ms ∧ ms ⊆ ls ∧ ⟨false, a⟩ ∉ ms

variable {cs : List Clause} {a : String}

theorem exists_inputDerivable_without : ∀ as : List String, (∀ a ∈ as, Removable cs a) →
    ∀ ls, InputDerivable cs ls → ∃ ms, InputDerivable cs ms ∧ ms ⊆ ls
      ∧ ∀ a ∈ as, ⟨false, a⟩ ∉ ms
  | [], _, ls, hls => ⟨ls, hls, fun _ hl => hl, by simp⟩
  | a :: as, has, ls, hls => by
    obtain ⟨ms, hms, hsub, hnot⟩ :=
      exists_inputDerivable_without as (fun b hb => has b (List.mem_cons_of_mem _ hb)) ls hls
    obtain ⟨ns, hns, hsub', ha⟩ := has a List.mem_cons_self ms hms
    refine ⟨ns, hns, fun l hl => hsub (hsub' hl), fun b hb hmem => ?_⟩
    rcases List.mem_cons.mp hb with rfl | hb
    · exact ha hmem
    · exact hnot b hb (hsub' hmem)

theorem Forced.removable (horn : ∀ c ∈ cs, c.IsHorn) (h : Forced cs a) : Removable cs a := by
  induction h with
  | @head c a hc ha _ ih =>
    intro ls hls
    by_cases hmem : ⟨false, a⟩ ∈ ls
    · have hres : InputDerivable cs
          (c.literals.filter (· ≠ ⟨true, a⟩) ++ ls.filter (· ≠ ⟨false, a⟩)) :=
        .resolve hc ha hls hmem
      -- the resolvent denies the body of `c` instead of `a`, and that can be resolved away
      obtain ⟨ms, hms, hsub, hnot⟩ := exists_inputDerivable_without (denied c.literals)
        (fun b hb => ih b (mem_denied.mp hb)) _ hres
      have hrest : ∀ m ∈ ms, m ∈ ls ∧ m ≠ ⟨false, a⟩ := by
        intro m hm
        rcases List.mem_append.mp (hsub hm) with hc' | hls'
        · obtain ⟨hmc, hne⟩ := List.mem_filter.mp hc'
          obtain ⟨p, b⟩ := m
          cases p with
          | false => exact absurd hm (hnot b (mem_denied.mpr hmc))
          | true =>
            obtain rfl := (horn c hc).eq_of_mem hmc ha
            simp at hne
        · obtain ⟨hm', hne⟩ := List.mem_filter.mp hls'
          exact ⟨hm', of_decide_eq_true hne⟩
      exact ⟨ms, hms, fun m hm => (hrest m hm).1, fun hm => (hrest _ hm).2 rfl⟩
    · exact ⟨ls, hls, fun _ hl => hl, hmem⟩

/-- Input resolution refutes Horn clauses that no assignment satisfies. -/
theorem inputDerivable_nil_of_unsatisfiable (horn : ∀ c ∈ cs, c.IsHorn)
    (unsat : ¬ ∃ v : Assignment, v.SatisfiesAll cs) : InputDerivable cs [] := by
  classical
  let v : Assignment := fun a => decide (Forced cs a)
  obtain ⟨c, hc, hfalse⟩ : ∃ c ∈ cs, ¬ v.Satisfies c := by
    by_contra hall
    exact unsat ⟨v, fun c hc => by_contra fun hnot => hall ⟨c, hc, hnot⟩⟩
  have hforced : ∀ b, ⟨false, b⟩ ∈ c.literals → Forced cs b := by
    intro b hb
    by_contra hnot
    exact hfalse ⟨_, hb, decide_eq_false hnot⟩
  have hdenies : ∀ b, ⟨true, b⟩ ∉ c.literals := by
    intro b hb
    exact hfalse ⟨_, hb, decide_eq_true (Forced.head hc hb hforced)⟩
  obtain ⟨ms, hms, hsub, hnot⟩ := exists_inputDerivable_without (denied c.literals)
    (fun b hb => (hforced b (mem_denied.mp hb)).removable horn) _ (.given hc)
  have hnil : ms = [] := by
    refine List.eq_nil_iff_forall_not_mem.mpr fun m hm => ?_
    obtain ⟨p, b⟩ := m
    cases p with
    | false => exact hnot b (mem_denied.mpr (hsub hm)) hm
    | true => exact hdenies b (hsub hm)
  rwa [hnil] at hms

/-- If the normal forms of the clauses are Horn clauses and no assignment satisfies them all, an
empty clause is reported, on the way to the knowledge base or by resolution. -/
theorem empties_ne_nil_of_unsatisfiable_horn (cs : List Clause)
    (horn : ∀ c ∈ cs, c.standardize.IsHorn)
    (unsat : ¬ ∃ v : Assignment, v.SatisfiesAll (cs.map Clause.standardize)) :
    (closure cs).empties ≠ [] := by
  have hderive : InputDerivable (cs.map Clause.standardize) [] := by
    refine inputDerivable_nil_of_unsatisfiable (fun c hc => ?_) unsat
    obtain ⟨d, hd, rfl⟩ := List.mem_map.mp hc
    exact horn d hd
  obtain ⟨_, ⟨c, hc, rfl⟩, hsub⟩ := (saturated_met cs).map_standardize.exists_subset hderive
  rcases List.mem_append.mp hc with hc | hc
  · exact absurd (List.subset_nil.mp hsub) (literals_ne_nil_of_mem_closure hc)
  · exact List.ne_nil_of_mem hc

/-- The chain forces `C`. -/
theorem empties_ne_nil_of_unsatisfiable_horn_chain :
    let cs : List Clause := ⟨[⟨false, "C"⟩, ⟨false, "A"⟩], [], 0⟩ :: chain
    (∀ c ∈ cs, c.standardize.IsHorn)
      ∧ (¬ ∃ v : Assignment, v.SatisfiesAll (cs.map Clause.standardize))
      ∧ (closure cs).empties ≠ [] := by
  intro cs
  have horn : ∀ c ∈ cs, c.standardize.IsHorn := by decide
  have hnormal : cs.map Clause.standardize = [⟨[⟨false, "A"⟩, ⟨false, "C"⟩], [], 0⟩,
      ⟨[⟨true, "A"⟩], [], 0⟩, ⟨[⟨false, "A"⟩, ⟨true, "B"⟩], [], 0⟩,
      ⟨[⟨false, "B"⟩, ⟨true, "C"⟩], [], 0⟩] := by decide
  have unsat : ¬ ∃ v : Assignment, v.SatisfiesAll (cs.map Clause.standardize) := by
    rintro ⟨v, hv⟩
    obtain ⟨hgoal, hA, hB, hC⟩ : (v "A" = false ∨ v "C" = false) ∧ v "A" = true
        ∧ (v "A" = false ∨ v "B" = true) ∧ (v "B" = false ∨ v "C" = true) := by
      simpa [hnormal, Assignment.SatisfiesAll, Assignment.Satisfies, Assignment.Holds] using hv
    simp_all
  exact ⟨horn, unsat, empties_ne_nil_of_unsatisfiable_horn cs horn unsat⟩

end Resolution
