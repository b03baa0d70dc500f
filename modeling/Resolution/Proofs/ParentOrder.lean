import Mathlib.Data.List.FinRange
import Mathlib.Data.List.ProdSigma
import Resolution.Proofs.NormalResolvents

/-!
# The order of the parents

Two clauses have one resolvent for each pair of positions at which they clash, in the order of the
pairs (`resolve_eq_map`). With the clauses exchanged the same pairs clash the other way round
(`perm_clashingPositions_swap`), and a pair leaves the same literals behind, joined the other way
round, which makes no difference to their normal form. So the resolvents are permuted, and all
that changes in them is the order in which they name their parents. No clause has to be in normal
form for this: a literal that stands at two positions clashes, and resolves, twice.
-/

namespace Resolution

section Products

variable {α β γ : Type*}

theorem zipIdx_eq_map_finRange (xs : List α) :
    xs.zipIdx = (List.finRange xs.length).map fun i => (xs[i], i.val) :=
  List.ext_getElem (by simp) (by simp)

theorem map_filter_product (xs : List α) (ys : List β) (p : α × β → Bool) (f : α × β → γ) :
    ((xs ×ˢ ys).filter p).map f
      = xs.flatMap fun x => ys.filterMap fun y => if p (x, y) then some (f (x, y)) else none := by
  have hproduct : xs ×ˢ ys = xs.flatMap fun x => ys.map (Prod.mk x) := rfl
  rw [hproduct, List.filter_flatMap, List.map_flatMap]
  refine List.flatMap_congr fun x _ => ?_
  rw [List.filter_map, List.map_map, ← List.filterMap_eq_map, List.filterMap_filter]
  rfl

end Products

/-- The pairs of positions at which a literal of `a` is the negation of one of `b`. -/
def clashingPositions (a b : Clause) : List (Fin a.literals.length × Fin b.literals.length) :=
  (List.finRange a.literals.length ×ˢ List.finRange b.literals.length).filter fun p =>
    a.literals[p.1] = b.literals[p.2].negate

/-- The clause with its parents named in the other order. -/
def Clause.swapParents (c : Clause) : Clause :=
  { c with source := c.source.reverse }

section Positions

variable {a b : Clause}

theorem mem_clashingPositions {p : Fin a.literals.length × Fin b.literals.length} :
    p ∈ clashingPositions a b ↔ a.literals[p.1] = b.literals[p.2].negate := by
  obtain ⟨i, j⟩ := p
  rw [clashingPositions, List.mem_filter, decide_eq_true_eq]
  exact and_iff_right (List.pair_mem_product.mpr ⟨List.mem_finRange i, List.mem_finRange j⟩)

theorem nodup_clashingPositions : (clashingPositions a b).Nodup :=
  ((List.nodup_finRange _).product (List.nodup_finRange _)).filter _

theorem perm_clashingPositions_swap :
    (clashingPositions b a).Perm ((clashingPositions a b).map Prod.swap) := by
  have hnodup := (nodup_clashingPositions (a := a) (b := b)).map Prod.swap_injective
  refine (List.perm_ext_iff_of_nodup nodup_clashingPositions hnodup).mpr fun p => ?_
  rw [mem_clashingPositions, List.mem_map]
  constructor
  · intro h
    refine ⟨p.swap, ?_, p.swap_swap⟩
    exact mem_clashingPositions.mpr (Literal.negate_eq_iff.mp h.symm)
  · rintro ⟨q, hq, rfl⟩
    exact Literal.negate_eq_iff.mp (mem_clashingPositions.mp hq).symm

theorem resolve_eq_map :
    resolve a b = (clashingPositions a b).map fun p => resolventAt a b p.1 p.2 := by
  rw [resolve, clashingPositions, map_filter_product, zipIdx_eq_map_finRange,
    zipIdx_eq_map_finRange, List.flatMap_map]
  refine List.flatMap_congr fun i _ => ?_
  dsimp only
  rw [List.filterMap_map]
  refine List.filterMap_congr fun j _ => ?_
  -- one side asks for the negation of the left literal, the other for that of the right one
  have hclash : b.literals[j] = a.literals[i].negate ↔ a.literals[i] = b.literals[j].negate :=
    eq_comm.trans Literal.negate_eq_iff
  simp only [Function.comp_apply, hclash, decide_eq_true_eq]

theorem resolventAt_swap (i j : ℕ) : resolventAt b a j i = (resolventAt a b i j).swapParents :=
  congrArg (Clause.mk · [b.name, a.name] 0) (literals_resolventAt_swap a b i j)

end Positions

/-- Resolving two clauses in the other order gives the same literals, each as often as before,
under the names of the parents in the other order. There is one resolvent for each pair of
positions that clash. -/
theorem resolve_perm_swapParents (a b : Clause) :
    (resolve b a).Perm ((resolve a b).map Clause.swapParents)
      ∧ resolve a b = (clashingPositions a b).map fun p => resolventAt a b p.1 p.2 := by
  refine ⟨?_, resolve_eq_map⟩
  rw [resolve_eq_map, resolve_eq_map, List.map_map]
  refine (perm_clashingPositions_swap.map _).trans ?_
  rw [List.map_map]
  exact .of_eq (List.map_congr_left fun p _ => resolventAt_swap p.1 p.2)

/-- The two copies of `A` clash with the one `¬A`, and `B` with `¬B`. -/
example : clashingPositions ⟨[⟨true, "A"⟩, ⟨true, "B"⟩, ⟨true, "A"⟩], [], 0⟩
    ⟨[⟨false, "B"⟩, ⟨false, "A"⟩], [], 0⟩ = [(0, 1), (1, 0), (2, 1)] := by decide

end Resolution
