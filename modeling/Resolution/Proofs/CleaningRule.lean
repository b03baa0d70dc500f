import Mathlib.Data.List.Basic
import Resolution.Clause.Cleaning

/-!
# Cleaning follows its rule

Cleaning goes through the literals once and never shortens the list, while the rule takes literals
out of it. The two meet in the literals ahead that are still live: from some point on, cleaning is
the rule for these (`cleanFrom_eq_cleanByRule`), as long as all that is live is ahead. So literals
that were settled are no longer there for the rule, and a live one has its negation ahead exactly
if that is live too. Where copies are counted, a literal is live as long as its count is not zero
(`cleanCounting_eq_cleanFrom`).
-/

namespace Resolution

variable {l m : Literal} {live ls : List Literal}

section Rule

theorem without_of_not_mem (h : l ∉ ls) : without l ls = ls :=
  List.filter_eq_self.mpr fun _ hm => decide_eq_true fun heq => h (heq ▸ hm)

theorem cleanByRule_cons_of_mem (h : l.negate ∈ ls) :
    cleanByRule (l :: ls) = cleanByRule (without l (without l.negate ls)) := by
  rw [cleanByRule, if_pos h]

/-- Without its negation one copy of a literal stays, whether there are more of it or not. -/
theorem cleanByRule_cons_of_not_mem (h : l.negate ∉ ls) :
    cleanByRule (l :: ls) = l :: cleanByRule (without l ls) := by
  rw [cleanByRule, if_neg h]
  split_ifs with hl
  · rfl
  · rw [without_of_not_mem hl]

end Rule

section Steps

/-- What is live once `l` and its negation are settled. -/
def settle (l : Literal) (live : List Literal) : List Literal :=
  live.filter fun m => m ≠ l ∧ m ≠ l.negate

theorem mem_settle : m ∈ settle l live ↔ m ∈ live ∧ m ≠ l ∧ m ≠ l.negate := by
  simp [settle]

theorem cleanFrom_cons_of_not_mem (hl : l ∉ live) :
    cleanFrom live (l :: ls) = cleanFrom live ls := by
  rw [cleanFrom, if_neg hl]

theorem cleanFrom_cons_of_clash (hl : l ∈ live) (hn : l.negate ∈ live) :
    cleanFrom live (l :: ls) = cleanFrom (settle l live) ls := by
  rw [cleanFrom, if_pos hl]
  exact if_pos hn

theorem cleanFrom_cons_of_mem (hl : l ∈ live) (hn : l.negate ∉ live) :
    cleanFrom live (l :: ls) = l :: cleanFrom (settle l live) ls := by
  rw [cleanFrom, if_pos hl]
  exact if_neg hn

end Steps

section Ahead

/-- The literals ahead that are live. -/
def ahead (live ls : List Literal) : List Literal :=
  ls.filter (· ∈ live)

theorem mem_ahead : m ∈ ahead live ls ↔ m ∈ ls ∧ m ∈ live := by
  simp [ahead]

theorem ahead_cons_of_mem (hl : l ∈ live) : ahead live (l :: ls) = l :: ahead live ls :=
  List.filter_cons_of_pos (decide_eq_true hl)

theorem ahead_cons_of_not_mem (hl : l ∉ live) : ahead live (l :: ls) = ahead live ls :=
  List.filter_cons_of_neg (by simpa using hl)

theorem ahead_settle : ahead (settle l live) ls = without l (without l.negate (ahead live ls)) := by
  simp only [ahead, without, List.filter_filter]
  refine List.filter_congr fun m _ => ?_
  rw [Bool.eq_iff_iff]
  simp only [decide_eq_true_eq, Bool.and_eq_true, mem_settle]
  tauto

theorem cleanFrom_eq_cleanByRule (h : ∀ m ∈ live, m ∈ ls) :
    cleanFrom live ls = cleanByRule (ahead live ls) := by
  induction ls generalizing live with
  | nil => rw [ahead, List.filter_nil, cleanFrom, cleanByRule]
  | cons l ls ih =>
    have hrest : ∀ m ∈ live, m ≠ l → m ∈ ls :=
      fun m hm hne => (List.mem_cons.mp (h m hm)).resolve_left hne
    by_cases hl : l ∈ live
    · have hsettle : cleanFrom (settle l live) ls = cleanByRule (ahead (settle l live) ls) :=
        ih fun m hm => hrest m (mem_settle.mp hm).1 (mem_settle.mp hm).2.1
      rw [ahead_cons_of_mem hl]
      by_cases hn : l.negate ∈ live
      · have hahead : l.negate ∈ ahead live ls :=
          mem_ahead.mpr ⟨hrest _ hn l.negate_ne_self, hn⟩
        rw [cleanFrom_cons_of_clash hl hn, hsettle, ahead_settle, cleanByRule_cons_of_mem hahead]
      · have hahead : l.negate ∉ ahead live ls := fun hmem => hn (mem_ahead.mp hmem).2
        rw [cleanFrom_cons_of_mem hl hn, hsettle, ahead_settle, without_of_not_mem hahead,
          cleanByRule_cons_of_not_mem hahead]
    · rw [cleanFrom_cons_of_not_mem hl, ahead_cons_of_not_mem hl]
      exact ih fun m hm => hrest m hm fun heq => hl (heq ▸ hm)

end Ahead

section Counting

variable {remaining : Literal → ℕ}

theorem countOut_eq_zero : countOut l remaining m = 0 ↔ m = l ∨ remaining m = 0 := by
  unfold countOut
  split_ifs with h <;> simp [h]

theorem cleanCounting_eq_cleanFrom (h : ∀ m, remaining m = 0 ↔ m ∉ live) :
    cleanCounting remaining ls = cleanFrom live ls := by
  induction ls generalizing remaining live with
  | nil => rfl
  | cons l ls ih =>
    rw [cleanCounting]
    split_ifs with hl hn
    · rw [cleanFrom_cons_of_not_mem ((h l).mp hl)]
      exact ih h
    · have hl' : l ∈ live := not_not.mp (mt (h l).mpr hl)
      have hn' : l.negate ∉ live := (h l.negate).mp hn
      rw [cleanFrom_cons_of_mem hl' hn']
      congr 1
      refine ih fun m => ?_
      -- the negation has no copies left as it is
      have hm : m = l.negate → m ∉ live := fun heq => heq ▸ hn'
      rw [countOut_eq_zero, h, mem_settle]
      tauto
    · have hl' : l ∈ live := not_not.mp (mt (h l).mpr hl)
      have hn' : l.negate ∈ live := not_not.mp (mt (h l.negate).mpr hn)
      rw [cleanFrom_cons_of_clash hl' hn']
      refine ih fun m => ?_
      rw [countOut_eq_zero, countOut_eq_zero, h, mem_settle]
      tauto

end Counting

/-- For every sequence of literals cleaning does in one pass what its rule says, whether it goes
by what is live or counts the copies that are left. -/
theorem clean_eq_cleanByRule (ls : List Literal) :
    clean ls = cleanByRule ls ∧ cleanCounting (fun l => ls.count l) ls = cleanByRule ls := by
  have hahead : ahead ls ls = ls := List.filter_eq_self.mpr fun _ hm => decide_eq_true hm
  have hclean : clean ls = cleanByRule ls := by
    rw [clean, cleanFrom_eq_cleanByRule fun _ hm => hm, hahead]
  have hcount : cleanCounting (fun l => ls.count l) ls = clean ls :=
    cleanCounting_eq_cleanFrom fun _ => List.count_eq_zero
  exact ⟨hclean, hcount.trans hclean⟩

end Resolution
