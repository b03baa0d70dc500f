import Mathlib.Data.Set.Basic
import Mathlib.Data.Set.Insert
import Resolution.Derivation

/-!
# Where input resolution is complete

In general input resolution derives less than resolution does: a resolvent of two derived sets need
not be derived. It is where no clause of the knowledge base clashes more than once with a derived
set (`SingleClash.inputDerives_resolvent`).

A derived set applies on a literal when resolving with it on this literal always leads to derived
sets. A clause of the knowledge base does, and a set derived from it does as long as its parents can
be taken one after the other. That fails where the literal merges, which is to say that both parents
have it; but then they offer a turn from its negation to the literal (`applies_or_turns`). If there
is also a turn from the literal to its negation, a merge would make a clause of the knowledge base
clash twice (`applies_of_turns`). So of two derived sets that resolve one applies.
-/

namespace Resolution

/-- The resolvent of two sets of literals, taken on `l`. -/
def resolventOn (l : Literal) (a b : Set Literal) : Set Literal :=
  a \ {l} ∪ b \ {l.negate}

theorem mem_resolventOn {l m : Literal} {a b : Set Literal} :
    m ∈ resolventOn l a b ↔ m ∈ a ∧ m ≠ l ∨ m ∈ b ∧ m ≠ l.negate :=
  Iff.rfl

theorem resolventOn_negate (l : Literal) (a b : Set Literal) :
    resolventOn l.negate b a = resolventOn l a b := by
  rw [resolventOn, Literal.negate_negate, Set.union_comm, resolventOn]

section Orders

variable {l x : Literal} {p q b : Set Literal}

theorem resolventOn_assoc (hl : l ∉ p) (hx : x.negate ∉ b) :
    resolventOn l (resolventOn x p q) b = resolventOn x p (resolventOn l q b) := by
  ext m
  simp only [mem_resolventOn]
  grind

theorem resolventOn_exchange (hl : l ∉ p) (hn : l.negate ∉ p) (hxq : x.negate ∈ q)
    (hxb : x.negate ∈ b) (hlx : l.negate ≠ x.negate) (hlx' : l ≠ x.negate) :
    resolventOn l (resolventOn x p q) b = resolventOn l q (resolventOn x p b) := by
  ext m
  simp only [mem_resolventOn]
  grind

end Orders

def Clause.toSet (c : Clause) : Set Literal :=
  {l | l ∈ c.literals}

/-- The set is that of some list which input resolution derives. -/
def InputDerives (kb : List Clause) (s : Set Literal) : Prop :=
  ∃ ls, InputDerivable kb ls ∧ {l | l ∈ ls} = s

variable {kb : List Clause} {k : Clause} {l m x : Literal} {a b c : Set Literal}

namespace InputDerives

theorem given (hk : k ∈ kb) : InputDerives kb k.toSet :=
  ⟨_, .given hk, rfl⟩

theorem setOf_resolve (l : Literal) (ls ms : List Literal) :
    {m | m ∈ ls.filter (· ≠ l) ++ ms.filter (· ≠ l.negate)}
      = resolventOn l {m | m ∈ ls} {m | m ∈ ms} := by
  ext m
  simp [mem_resolventOn]

theorem resolve (hk : k ∈ kb) (hl : l ∈ k.toSet) (hb : InputDerives kb b) (hn : l.negate ∈ b) :
    InputDerives kb (resolventOn l k.toSet b) := by
  obtain ⟨ls, hls, rfl⟩ := hb
  exact ⟨_, .resolve hk hl hls hn, setOf_resolve l _ _⟩

theorem induction {motive : (s : Set Literal) → InputDerives kb s → Prop}
    (given : ∀ k (hk : k ∈ kb), motive k.toSet (.given hk))
    (resolve : ∀ k l b (hk : k ∈ kb) (hl : l ∈ k.toSet) (hb : InputDerives kb b)
      (hn : l.negate ∈ b), motive b hb → motive (resolventOn l k.toSet b) (.resolve hk hl hb hn))
    {s : Set Literal} (h : InputDerives kb s) : motive s h := by
  obtain ⟨ls, hls, rfl⟩ := h
  induction hls with
  | @given k hk => exact given k hk
  | @resolve k l ls hk hl hls hn ih =>
    have hmotive := resolve k l _ hk hl ⟨ls, hls, rfl⟩ hn ih
    have hset : ∀ s (hs : InputDerives kb s), resolventOn l k.toSet {m | m ∈ ls} = s →
        motive s hs := by
      rintro s hs rfl
      exact hmotive
    exact hset _ _ (setOf_resolve l k.literals ls).symm

end InputDerives

/-- No clause of `kb` clashes more than once with a set that input resolution derives. -/
structure SingleClash (kb : List Clause) : Prop where
  once : ∀ k ∈ kb, ∀ b, InputDerives kb b → ∀ l ∈ k.toSet, ∀ m ∈ k.toSet,
    l.negate ∈ b → m.negate ∈ b → l = m

/-- Resolving with `a` on `l` leads from derived sets to derived sets. -/
def Applies (kb : List Clause) (a : Set Literal) (l : Literal) : Prop :=
  ∀ b, InputDerives kb b → l.negate ∈ b → InputDerives kb (resolventOn l a b)

/-- From a derived set with `l` one comes to a derived set with the negation of `l`, and loses
nothing else. -/
def Turns (kb : List Clause) (l : Literal) : Prop :=
  ∀ b, InputDerives kb b → l ∈ b → ∃ s, InputDerives kb s ∧ l.negate ∈ s ∧ b \ {l} ⊆ s

theorem applies_of_mem (hk : k ∈ kb) (hl : l ∈ k.toSet) : Applies kb k.toSet l :=
  fun _ hb hn => .resolve hk hl hb hn

/-- A resolvent applies on a literal that it has from one parent only, if both parents apply. -/
theorem Applies.resolventOn (ha : Applies kb a x) (hc : Applies kb c l) (hx : x.negate ∈ c)
    (hl : l ∉ a) (hn : l.negate ∉ a) (hlx : l ≠ x) (hlx' : l ≠ x.negate) :
    Applies kb (resolventOn x a c) l := by
  intro b hb hlb
  have hne : l.negate ≠ x.negate := fun heq => hlx (Literal.negate_inj.mp heq)
  by_cases hxb : x.negate ∈ b
  · rw [resolventOn_exchange hl hn hx hxb hne hlx']
    exact hc _ (ha b hb hxb) (.inr ⟨hlb, hne⟩)
  · rw [resolventOn_assoc hl hxb]
    exact ha _ (hc b hb hlb) (.inl ⟨hx, Ne.symm hlx'⟩)

namespace SingleClash

variable (h : SingleClash kb)
include h

/-- Derived sets do not clash more than once with each other either. -/
theorem eq_of_clashes (ha : InputDerives kb a) :
    ∀ {b l m}, InputDerives kb b → l ∈ a → m ∈ a → l.negate ∈ b → m.negate ∈ b → l = m := by
  induction ha using InputDerives.induction with
  | given k hk => exact fun hb hl hm hln hmn => h.once k hk _ hb _ hl _ hm hln hmn
  | resolve k x c hk hx hc hn ih =>
    -- of two literals from different parents, one is still there when the other is resolved away
    have hcross : ∀ {b l m}, InputDerives kb b → l ∈ k.toSet → l ≠ x → m ∈ c → m ≠ x.negate →
        l.negate ∈ b → m.negate ∈ b → l = m := by
      intro b l m hb hl hlx hm hmx hln hmn
      by_contra hne
      have hs : InputDerives kb (resolventOn l k.toSet b) := .resolve hk hl hb hln
      have hxs : x ∈ resolventOn l k.toSet b := .inl ⟨hx, Ne.symm hlx⟩
      have hms : m.negate ∈ resolventOn l k.toSet b :=
        .inr ⟨hmn, fun heq => hne (Literal.negate_inj.mp heq).symm⟩
      exact hmx (ih hs hm hn hms (by rwa [Literal.negate_negate]))
    intro b l m hb hl hm hln hmn
    rcases hl with ⟨hl, hlx⟩ | ⟨hl, hlx⟩ <;> rcases hm with ⟨hm, hmx⟩ | ⟨hm, hmx⟩
    · exact h.once k hk b hb l hl m hm hln hmn
    · exact hcross hb hl hlx hm hmx hln hmn
    · exact (hcross hb hm hmx hl hlx hmn hln).symm
    · exact ih hb hl hm hln hmn

theorem negate_not_mem (ha : InputDerives kb a) (hl : l ∈ a) : l.negate ∉ a := by
  intro hn
  have heq := h.eq_of_clashes ha ha hl hn hn (by rwa [Literal.negate_negate])
  exact Literal.negate_ne_self l heq.symm

section Turning

variable (hk : k ∈ kb) (hl : l ∈ k.toSet) (hx : x ∈ k.toSet) (hlx : l ≠ x)
include hk hl hx hlx

/-- A turn at one literal of a clause of the knowledge base makes one at the negations of its other
literals. -/
theorem turns_negate (hturn : Turns kb l) : Turns kb x.negate := by
  intro b hb hxb
  have hne : x.negate ≠ l := fun heq => h.negate_not_mem (.given hk) hx (heq ▸ hl)
  have hlb : l ∉ b := by
    intro hlb
    obtain ⟨s, hs, hln, hsub⟩ := hturn b hb hlb
    exact hlx (h.once k hk s hs l hl x hx hln (hsub ⟨hxb, hne⟩))
  have hlnb : l.negate ∉ b := fun hln => hlx (h.once k hk b hb l hl x hx hln hxb)
  obtain ⟨s, hs, hln, hsub⟩ := hturn _ (.resolve hk hx hb hxb) (.inl ⟨hl, hlx⟩)
  refine ⟨resolventOn l k.toSet s, .resolve hk hl hs hln, .inl ⟨?_, ?_⟩, ?_⟩
  · rwa [Literal.negate_negate]
  · rw [Literal.negate_negate]
    exact Ne.symm hlx
  · rintro m ⟨hm, hmx⟩
    have hms : m ∈ s := hsub ⟨.inr ⟨hm, hmx⟩, fun heq => hlb (heq ▸ hm)⟩
    exact .inr ⟨hms, fun heq => hlnb (heq ▸ hm)⟩

variable (hc : InputDerives kb c) (hn : x.negate ∈ c) (hlc : l ∈ c)
include hc hn hlc

theorem turns_of_merge (happ : Applies kb c x.negate) : Turns kb l.negate := by
  intro b hb hlb
  have hne : l ≠ x.negate := fun heq => h.negate_not_mem (.given hk) hx (heq ▸ hl)
  have hxb : x ∉ b := fun hxb =>
    hne (h.eq_of_clashes hc hb hlc hn hlb (by rwa [Literal.negate_negate]))
  have hs : InputDerives kb (resolventOn l k.toSet b) := .resolve hk hl hb hlb
  have hxs : x.negate.negate ∈ resolventOn l k.toSet b := by
    rw [Literal.negate_negate]
    exact .inl ⟨hx, Ne.symm hlx⟩
  refine ⟨_, happ _ hs hxs, .inl ⟨?_, ?_⟩, ?_⟩
  · rwa [Literal.negate_negate]
  · rwa [Literal.negate_negate]
  · rintro m ⟨hm, hml⟩
    refine .inr ⟨.inr ⟨hm, hml⟩, fun heq => hxb ?_⟩
    rw [Set.mem_singleton_iff, Literal.negate_negate] at heq
    exact heq ▸ hm

theorem not_turns_of_merge : ¬ Turns kb l := by
  intro hturn
  obtain ⟨s, hs, hln, hsub⟩ := hturn c hc hlc
  have hne : x.negate ≠ l := fun heq => h.negate_not_mem (.given hk) hx (heq ▸ hl)
  exact hlx (h.once k hk s hs l hl x hx hln (hsub ⟨hn, hne⟩))

end Turning

section Parents

variable (hk : k ∈ kb) (hx : x ∈ k.toSet) (hc : InputDerives kb c) (hn : x.negate ∈ c)
include hk hx hc hn

theorem ne_of_mem_resolventOn (hl : l ∈ resolventOn x k.toSet c) : l ≠ x ∧ l ≠ x.negate := by
  rcases hl with ⟨hlk, hlx⟩ | ⟨hlc, hlx⟩
  · exact ⟨hlx, fun heq => h.negate_not_mem (.given hk) hx (heq ▸ hlk)⟩
  · exact ⟨fun heq => h.negate_not_mem hc (heq ▸ hlc) hn, hlx⟩

theorem applies_of_known (hl : l ∈ resolventOn x k.toSet c) (hlk : l ∉ k.toSet)
    (happ : Applies kb c l) : Applies kb (resolventOn x k.toSet c) l := by
  obtain ⟨hlx, hlx'⟩ := h.ne_of_mem_resolventOn hk hx hc hn hl
  have hlc : l ∈ c := (hl.resolve_left fun hmem => hlk hmem.1).1
  refine (applies_of_mem hk hx).resolventOn happ hn hlk (fun hmem => hlx' ?_) hlx hlx'
  have heq := h.once k hk c hc _ hmem x hx (by rwa [Literal.negate_negate]) hn
  exact Literal.negate_eq_iff.mp heq

theorem applies_of_kb (hl : l ∈ resolventOn x k.toSet c) (hlc : l ∉ c)
    (happ : Applies kb c x.negate) : Applies kb (resolventOn x k.toSet c) l := by
  obtain ⟨hlx, hlx'⟩ := h.ne_of_mem_resolventOn hk hx hc hn hl
  have hlk : l ∈ k.toSet := (hl.resolve_right fun hmem => hlc hmem.1).1
  have hlnc : l.negate ∉ c := fun hmem => hlx (h.once k hk c hc l hlk x hx hmem hn)
  rw [← resolventOn_negate]
  refine happ.resolventOn (applies_of_mem hk hlk) ?_ hlc hlnc hlx' ?_
  · rwa [Literal.negate_negate]
  · rwa [Literal.negate_negate]

end Parents

theorem applies_or_turns (ha : InputDerives kb a) :
    ∀ l ∈ a, Applies kb a l ∨ Turns kb l.negate := by
  induction ha using InputDerives.induction with
  | given k hk => exact fun l hl => .inl (applies_of_mem hk hl)
  | resolve k x c hk hx hc hn ih =>
    intro l hl
    obtain ⟨hlx, hlx'⟩ := h.ne_of_mem_resolventOn hk hx hc hn hl
    by_cases hlk : l ∈ k.toSet
    -- `k` has to be taken before `c` then, and `c` on the pivot
    · rcases ih x.negate hn with happ | hturn
      · by_cases hlc : l ∈ c
        · exact .inr (h.turns_of_merge hk hlk hx hlx hc hn hlc happ)
        · exact .inl (h.applies_of_kb hk hx hc hn hl hlc happ)
      · rw [Literal.negate_negate] at hturn
        exact .inr (h.turns_negate hk hx hlk (Ne.symm hlx) hturn)
    · have hlc : l ∈ c := (hl.resolve_left fun hmem => hlk hmem.1).1
      rcases ih l hlc with happ | hturn
      · exact .inl (h.applies_of_known hk hx hc hn hl hlk happ)
      · exact .inr hturn

theorem applies_of_turns (ha : InputDerives kb a) : ∀ l ∈ a, Turns kb l → Applies kb a l := by
  induction ha using InputDerives.induction with
  | given k hk => exact fun l hl _ => applies_of_mem hk hl
  | resolve k x c hk hx hc hn ih =>
    intro l hl hturn
    obtain ⟨hlx, -⟩ := h.ne_of_mem_resolventOn hk hx hc hn hl
    by_cases hlk : l ∈ k.toSet
    · by_cases hlc : l ∈ c
      · exact absurd hturn (h.not_turns_of_merge hk hlk hx hlx hc hn hlc)
      · have happ := ih x.negate hn (h.turns_negate hk hlk hx hlx hturn)
        exact h.applies_of_kb hk hx hc hn hl hlc happ
    · have hlc : l ∈ c := (hl.resolve_left fun hmem => hlk hmem.1).1
      exact h.applies_of_known hk hx hc hn hl hlk (ih l hlc hturn)

/-- Where nothing clashes twice, the resolvent of two derived sets is derived. -/
theorem inputDerives_resolvent (ha : InputDerives kb a) (hb : InputDerives kb b) (hl : l ∈ a)
    (hn : l.negate ∈ b) : InputDerives kb (resolventOn l a b) := by
  rcases h.applies_or_turns hb l.negate hn with happ | hturn
  · rw [← resolventOn_negate]
    exact happ a ha (by rwa [Literal.negate_negate])
  · rw [Literal.negate_negate] at hturn
    exact h.applies_of_turns ha l hl hturn b hb hn

end SingleClash

end Resolution
