import Resolution.Checkpoint
import Resolution.Proofs.KnowledgeBases

/-!
# What a checkpoint holds

The document of a set lists an entry for each of its clauses, and the entry reads back as the
clause, source and step included (`readClause_ofClause`). As the clauses of a set are distinct, none
of them is passed over when they are put back one after the other, so loading a document gives the
set that it was made from, in the same order (`toSet_ofSet`).
-/

namespace Resolution.Checkpoint

theorem mapM_map_ok {ε α β γ : Type} {f : β → Except ε γ} {g : α → β} {h : α → γ}
    (hf : ∀ a, f (g a) = .ok (h a)) (as : List α) : (as.map g).mapM f = .ok (as.map h) := by
  have hcomp : f ∘ g = fun a => pure (h a) := funext hf
  rw [List.mapM_map, hcomp, List.mapM_pure]
  rfl

theorem polarity?_sign (positive : Bool) :
    polarity? (.text (if positive then "+" else "-")) = some positive := by
  cases positive <;> decide

theorem signedAtom_literalJson (l : Literal) :
    signedAtom (literalJson l) = .ok (l.positive, .text l.atom) := by
  simp only [signedAtom, literalJson, items?, polarity?_sign]

namespace Entry

/-- The entry that a document has for a clause. -/
def ofClause (c : Clause) : Entry where
  literals := c.literals.map fun l => (l.positive, .text l.atom)
  source := c.source.map .text
  step := .int c.step

variable (c : Clause) (s : ClauseSet)

theorem ofJson_clauseJson : ofJson (clauseJson c) = .ok (ofClause c) := by
  have hliterals : field (clauseJson c) "literals" = .ok (.arr (c.literals.map literalJson)) := rfl
  have hplain : ∀ l : Literal, plainAtom (.text l.atom) = .ok (.text l.atom) := fun _ => rfl
  unfold ofJson
  simp only [hliterals, bind, Except.bind, items, items?, Option.elim_some,
    mapM_map_ok signedAtom_literalJson]
  rw [mapM_map_ok (h := fun l : Literal => (l.positive, Json.text l.atom)) fun l => by
    simp only [hplain, pure, Except.pure]]
  rfl

theorem readLiterals_ofClause : (ofClause c).readLiterals = .ok c.literals := by
  have hread : ∀ l : Literal, atomText (.text l.atom) = .ok l.atom := fun l => by
    simp [atomText, Json.text]
  rw [readLiterals, ofClause, mapM_map_ok (h := id) fun l => by simp [hread], List.map_id]

theorem readClause_ofClause : (ofClause c).readClause = .ok c := by
  have hsource : (ofClause c).source.mapM sourceText = .ok (c.source.map id) :=
    mapM_map_ok (fun t => by simp [sourceText, Json.text]) c.source
  rw [readClause, readLiterals_ofClause, hsource, List.map_id]
  rfl

/-- A clause is asked for by its literals, so one that is there already is left as it is. -/
theorem insertInto_ofClause : (ofClause c).insertInto s = .ok (s.insert c) := by
  have hcontains : s.contains { literals := c.literals } = s.contains c := rfl
  unfold insertInto
  simp only [readLiterals_ofClause, readClause_ofClause, bind, Except.bind, hcontains]
  split_ifs with h
  · rw [ClauseSet.insert_of_contains h]
    rfl
  · rfl

end Entry

theorem toSet_ofSet (s : ClauseSet) : toSet (ofSet s) = .ok s := by
  have hclauses : field (ofSet s) "clauses" = .ok (.arr (s.toList.map clauseJson)) := rfl
  have hinsert : (fun (t : ClauseSet) c => (Entry.ofClause c).insertInto t)
      = fun t c => pure (t.insert c) := by
    funext t c
    exact Entry.insertInto_ofClause c t
  unfold toSet
  simp only [hclauses, bind, Except.bind, items, items?, Option.elim_some,
    mapM_map_ok Entry.ofJson_clauseJson]
  rw [List.foldlM_map, hinsert, List.foldlM_pure]
  exact congrArg Except.ok s.ofList_toList

end Resolution.Checkpoint
