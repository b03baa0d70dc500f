import Resolution.Clause.Grammar
import Resolution.Proofs.Cursor

/-!
# The texts that are clauses

A text is read as a clause iff it has no semicolon and its tokens are those of literals one after
the other, in parentheses (`Clause.MadeOf`). What can begin a literal is a word or a parenthesis,
and either says how many tokens it has, so one text is made of one sequence of pieces only
(`Clause.MadeOf.unique`). In which order the first token, the last one and those between them are
looked at decides only how a text is refused.
-/

namespace Resolution

section Pieces

variable {ts us vs ws : List Token} {l m : Literal} {ls : List Literal}
  {pieces : List (List Token × Literal)}

/-- Where one literal ends and the next begins is no matter of choice. -/
theorem WritesLiteral.inj (h : WritesLiteral ts l) (h' : WritesLiteral us m)
    (heq : ts ++ vs = us ++ ws) : ts = us ∧ l = m ∧ vs = ws := by
  cases h <;> cases h' <;> simp_all

theorem eq_of_flatMap_eq : ∀ {ps qs : List (List Token × Literal)},
    (∀ p ∈ ps, WritesLiteral p.1 p.2) → (∀ q ∈ qs, WritesLiteral q.1 q.2) →
      ps.flatMap Prod.fst = qs.flatMap Prod.fst → ps = qs
  | [], [], _, _, _ => rfl
  | [], q :: qs, _, hq, h => by
    have hne := (hq q List.mem_cons_self).ne_nil
    simp_all
  | p :: ps, [], hp, _, h => by
    have hne := (hp p List.mem_cons_self).ne_nil
    simp_all
  | p :: ps, q :: qs, hp, hq, h => by
    rw [List.forall_mem_cons] at hp hq
    rw [List.flatMap_cons, List.flatMap_cons] at h
    obtain ⟨htokens, hliteral, hrest⟩ := hp.1.inj hq.1 h
    rw [Prod.ext htokens hliteral, eq_of_flatMap_eq hp.2 hq.2 hrest]

theorem writesLiterals_iff : WritesLiterals ts ls ↔
    ∃ pieces : List (List Token × Literal), (∀ p ∈ pieces, WritesLiteral p.1 p.2)
      ∧ pieces.flatMap Prod.fst = ts ∧ pieces.map Prod.snd = ls := by
  constructor
  · intro h
    induction h with
    | nil => exact ⟨[], by simp, rfl, rfl⟩
    | @cons ts us l ls hl _ ih =>
      obtain ⟨pieces, hpieces, rfl, rfl⟩ := ih
      exact ⟨(ts, l) :: pieces, List.forall_mem_cons.mpr ⟨hl, hpieces⟩, rfl, rfl⟩
  · rintro ⟨pieces, hpieces, rfl, rfl⟩
    induction pieces with
    | nil => exact .nil
    | cons p pieces ih =>
      rw [List.forall_mem_cons] at hpieces
      exact .cons hpieces.1 (ih hpieces.2)

end Pieces

namespace Clause

variable {s : String} {c : Clause} {pieces : List (List Token × Literal)}

theorem MadeOf.unique {pieces' : List (List Token × Literal)} (h : MadeOf s pieces)
    (h' : MadeOf s pieces') : pieces = pieces' := by
  refine eq_of_flatMap_eq h.writes h'.writes ?_
  have htokens := Except.ok.inj (h.tokens.symm.trans h'.tokens)
  exact List.append_cancel_right (List.cons.inj htokens).2

theorem read_eq_ok_iff_madeOf : read s = .ok c ↔
    ∃ pieces, MadeOf s pieces ∧ c = standardize { literals := pieces.map Prod.snd } := by
  rw [read_eq_ok_iff]
  constructor
  · rintro ⟨d, hd, rfl⟩
    obtain ⟨ts, ls, hts, ⟨hus⟩, rfl⟩ := written_eq_ok_iff.mp hd
    obtain ⟨pieces, hpieces, rfl, rfl⟩ := writesLiterals_iff.mp hus
    exact ⟨pieces, ⟨exists_tokenize_eq_ok_iff.mp ⟨_, hts⟩, hts, hpieces⟩, rfl⟩
  · rintro ⟨pieces, h, rfl⟩
    refine ⟨_, written_eq_ok_iff.mpr ⟨_, _, h.tokens, .intro ?_, rfl⟩, rfl⟩
    exact writesLiterals_iff.mpr ⟨pieces, h.writes, rfl, rfl⟩

/-- A text is read exactly if it is made of pieces that write literals; there is only one way to
take it for that, and the clause is the normal form of these literals. Every other text is refused.
Moving a position over the tokens comes to the same on every text: the position is never without
a token, and the loop ends. -/
theorem read_iff_existsUnique_madeOf (s : String) :
    ((∃ c, read s = .ok c) ↔ ∃! pieces, MadeOf s pieces)
      ∧ (∀ c, read s = .ok c ↔
        ∃ pieces, MadeOf s pieces ∧ c = standardize { literals := pieces.map Prod.snd })
      ∧ ((∃ e, read s = .error e) ↔ ∀ pieces, ¬ MadeOf s pieces)
      ∧ readByPosition s = (read s).mapError .refused := by
  have hok : (∃ c, read s = .ok c) ↔ ∃ pieces, MadeOf s pieces := by
    simp only [read_eq_ok_iff_madeOf]
    exact ⟨fun ⟨_, pieces, h, _⟩ => ⟨pieces, h⟩, fun ⟨pieces, h⟩ => ⟨_, pieces, h, rfl⟩⟩
  have herror : (∃ e, read s = .error e) ↔ ¬ ∃ c, read s = .ok c := by
    rcases read s with e | c <;> simp
  refine ⟨hok.trans ⟨fun ⟨pieces, h⟩ => ⟨pieces, h, fun _ h' => h'.unique h⟩, ExistsUnique.exists⟩,
    fun _ => read_eq_ok_iff_madeOf, ?_, readByPosition_eq s⟩
  rw [herror, hok, not_exists]

/-- The keyword is read in any case, and stands for itself as an atom. -/
example : read "( (NOT b)not (nOt\tnot))" = .ok ⟨[⟨false, "b"⟩], [], 0⟩ := by decide

end Clause

end Resolution
