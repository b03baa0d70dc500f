import Mathlib.Data.Fintype.BigOperators
import Mathlib.Data.Fintype.Option
import Resolution.Proofs.NormalForm

/-!
# How many normal forms there are

An atom occurs in a normal form positively, negatively or not at all, and the three choices, made
for every atom, settle the form. So there are at most `3 ^ n` of them over `n` atoms, and fewer
that are not empty.
-/

namespace Resolution

/-- The polarity with which an atom occurs, if it does. -/
def polarity (ls : List Literal) (a : String) : Option Bool :=
  if ⟨true, a⟩ ∈ ls then some true else if ⟨false, a⟩ ∈ ls then some false else none

theorem NormalForm.mem_iff_polarity {ls : List Literal} (h : NormalForm ls) {l : Literal} :
    l ∈ ls ↔ polarity ls l.atom = some l.positive := by
  obtain ⟨p, a⟩ := l
  have hclash := h.clashFree ⟨true, a⟩
  simp only [Literal.negate, Bool.not_true] at hclash
  unfold polarity
  cases p <;> split_ifs <;> simp_all

/-- In normal form, not empty, and over the atoms `as`: what resolution can add. -/
structure NormalOver (as : List String) (ls : List Literal) : Prop where
  normal : NormalForm ls
  ne_nil : ls ≠ []
  atom_mem : ∀ l ∈ ls, l.atom ∈ as

variable {as : List String}

theorem NormalOver.ext {ls ms : List Literal} (hl : NormalOver as ls) (hm : NormalOver as ms)
    (h : ∀ a ∈ as, polarity ls a = polarity ms a) : ls = ms := by
  refine hl.normal.ext hm.normal fun l => ?_
  by_cases ha : l.atom ∈ as
  · rw [hl.normal.mem_iff_polarity, hm.normal.mem_iff_polarity, h _ ha]
  · exact iff_of_false (fun hmem => ha (hl.atom_mem l hmem)) fun hmem => ha (hm.atom_mem l hmem)

theorem NormalOver.exists_polarity {ls : List Literal} (h : NormalOver as ls) :
    ∃ a ∈ as, polarity ls a ≠ none := by
  obtain ⟨l, hl⟩ := List.exists_mem_of_ne_nil _ h.ne_nil
  refine ⟨l.atom, h.atom_mem l hl, ?_⟩
  rw [h.normal.mem_iff_polarity.mp hl]
  simp

/-- The polarities of the atoms `as`, which settle a normal form over them. -/
def signs (as : List String) (ls : List Literal) (a : {a // a ∈ as.toFinset}) : Option Bool :=
  polarity ls a

theorem signs_injOn {lss : List (List Literal)} (h : ∀ ls ∈ lss, NormalOver as ls) :
    Set.InjOn (signs as) lss.toFinset := by
  intro ls hls ms hms heq
  have hls := h ls (List.mem_toFinset.mp hls)
  have hms := h ms (List.mem_toFinset.mp hms)
  exact hls.ext hms fun a ha => congrFun heq ⟨a, List.mem_toFinset.mpr ha⟩

theorem NormalOver.signs_ne {ls : List Literal} (h : NormalOver as ls) :
    signs as ls ≠ fun _ => none := by
  obtain ⟨a, ha, hne⟩ := h.exists_polarity
  exact fun heq => hne (congrFun heq ⟨a, List.mem_toFinset.mpr ha⟩)

/-- Over `n` atoms there are fewer than `3 ^ n` normal forms that are not empty. -/
theorem length_lt_of_normalOver {lss : List (List Literal)} (hd : lss.Nodup)
    (h : ∀ ls ∈ lss, NormalOver as ls) : lss.length < 3 ^ as.length := by
  have hsub : lss.toFinset.image (signs as) ⊆ Finset.univ.erase fun _ => none := by
    intro f hf
    obtain ⟨ls, hls, rfl⟩ := Finset.mem_image.mp hf
    exact Finset.mem_erase.mpr ⟨(h ls (List.mem_toFinset.mp hls)).signs_ne, Finset.mem_univ _⟩
  have hcard := Finset.card_le_card hsub
  rw [Finset.card_image_of_injOn (signs_injOn h), List.toFinset_card_of_nodup hd,
    Finset.card_erase_of_mem (Finset.mem_univ _), Finset.card_univ, Fintype.card_fun,
    Fintype.card_option, Fintype.card_bool, Fintype.card_coe] at hcard
  have hpos : 0 < 3 ^ as.toFinset.card := Nat.pow_pos (by omega)
  calc lss.length ≤ 3 ^ as.toFinset.card - 1 := hcard
    _ < 3 ^ as.toFinset.card := by omega
    _ ≤ 3 ^ as.length := Nat.pow_le_pow_right (by omega) (List.toFinset_card_le as)

end Resolution
