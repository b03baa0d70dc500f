import Mathlib.Data.Nat.Notation
import Resolution.DerivationGraph.Reader

/-!
# Reading a derivation graph's names back

Between its quotes a name is written with a backslash before every double quote and with nothing
else changed. So the scan takes each backslash of the name for what it is, also one in front of a
double quote, as behind it stands the backslash that was added. Only the closing quote has none of
its own: behind a name that ends in a backslash it is taken for a part of the name. No name that
is read ends in a backslash (`getLast?_of_readNameRest`), so the names that are read back are
exactly those that do not (`readNameRest_escaped_iff`).
-/

namespace Resolution.DerivationGraph

/-- A name as it is written between the quotes. -/
def escaped (cs : List Char) : List Char :=
  cs.flatMap fun c => if c = '"' then ['\\', '"'] else [c]

theorem quoteName_eq (text : String) : quoteName text = '"' :: escaped text.toList ++ ['"'] := rfl

section Scanning

variable {c : Char} {cs name rest : List Char}

@[simp]
theorem escaped_nil : escaped [] = [] := rfl

theorem escaped_cons_quote (cs : List Char) : escaped ('"' :: cs) = '\\' :: '"' :: escaped cs := by
  simp [escaped]

theorem escaped_cons_of_ne (h : c ≠ '"') (cs : List Char) :
    escaped (c :: cs) = c :: escaped cs := by
  simp [escaped, h]

/-- Nothing that is written of a name begins with a double quote. -/
theorem head?_escaped_append_ne (h : cs ≠ []) (rest : List Char) :
    (escaped cs ++ rest).head? ≠ some '"' := by
  rcases cs with _ | ⟨c, cs⟩
  · exact absurd rfl h
  by_cases hc : c = '"'
  · subst hc
    simp [escaped_cons_quote]
  · simp [escaped_cons_of_ne hc, hc]

theorem readNameRest_cons_quote (rest : List Char) : readNameRest ('"' :: rest) = some ([], rest) :=
  rfl

theorem readNameRest_cons_escape (cs : List Char) : readNameRest ('\\' :: '"' :: cs)
    = (readNameRest cs).map fun (name, rest) => ('"' :: name, rest) := by
  simp [readNameRest]

/-- A character stands for itself, unless it is a double quote or a backslash before one. -/
theorem readNameRest_cons (hquote : c ≠ '"') (hescape : c = '\\' → cs.head? ≠ some '"') :
    readNameRest (c :: cs) = (readNameRest cs).map fun (name, rest) => (c :: name, rest) := by
  rw [readNameRest]
  · exact hquote
  · rintro ds rfl rfl
    exact hescape rfl rfl

theorem readNameRest_escaped (h : cs.getLast? ≠ some '\\') (rest : List Char) :
    readNameRest (escaped cs ++ '"' :: rest) = some (cs, rest) := by
  induction cs with
  | nil => exact readNameRest_cons_quote rest
  | cons c cs ih =>
    have htail : cs.getLast? ≠ some '\\' := fun hlast => h (by simp [List.getLast?_cons, hlast])
    by_cases hc : c = '"'
    · subst hc
      rw [escaped_cons_quote, List.cons_append, List.cons_append, readNameRest_cons_escape,
        ih htail]
      rfl
    · have hnext : c = '\\' → (escaped cs ++ '"' :: rest).head? ≠ some '"' := by
        rintro rfl
        refine head?_escaped_append_ne ?_ _
        rintro rfl
        exact h rfl
      rw [escaped_cons_of_ne hc, List.cons_append, readNameRest_cons hc hnext, ih htail]
      rfl

theorem readNameRest_eq_nil (h : readNameRest cs = some ([], rest)) : cs = '"' :: rest := by
  unfold readNameRest at h
  split at h <;> simp_all

theorem getLast?_of_readNameRest (h : readNameRest cs = some (name, rest)) :
    name.getLast? ≠ some '\\' := by
  fun_induction readNameRest cs generalizing name rest with
  | case1 => simp at h
  | case2 =>
    obtain ⟨rfl, -⟩ := Prod.mk.inj (Option.some.inj h)
    simp
  | case3 cs ih =>
    obtain ⟨⟨tail, rest⟩, htail, heq⟩ := Option.map_eq_some_iff.mp h
    obtain ⟨rfl, -⟩ := Prod.mk.inj heq
    rcases tail with _ | ⟨d, tail⟩
    · simp
    · rw [List.getLast?_cons_cons]
      exact ih htail
  | case4 c cs hquote hescape ih =>
    obtain ⟨⟨tail, rest⟩, htail, heq⟩ := Option.map_eq_some_iff.mp h
    obtain ⟨rfl, -⟩ := Prod.mk.inj heq
    rcases tail with _ | ⟨d, tail⟩
    · rintro hlast
      obtain rfl := Option.some.inj hlast
      exact hescape _ rfl (readNameRest_eq_nil htail)
    · rw [List.getLast?_cons_cons]
      exact ih htail

theorem readNameRest_escaped_iff : readNameRest (escaped cs ++ '"' :: rest) = some (cs, rest)
    ↔ cs.getLast? ≠ some '\\' :=
  ⟨getLast?_of_readNameRest, fun h => readNameRest_escaped h rest⟩

end Scanning

section Statements

variable {before after : List Char} {name : String} {count : ℕ}

theorem readName?_quoteName_iff : readName? (quoteName name ++ after) = some (name.toList, after)
    ↔ name.toList.getLast? ≠ some '\\' := by
  rw [quoteName_eq, List.cons_append, List.cons_append, List.append_assoc, List.singleton_append,
    readName?]
  exact readNameRest_escaped_iff

theorem getLast?_of_readName? {text read rest : List Char}
    (h : readName? text = some (read, rest)) : read.getLast? ≠ some '\\' := by
  unfold readName? at h
  split at h
  · exact getLast?_of_readNameRest h
  · simp at h

theorem dropWhile_append_quoteName (h : '"' ∉ before) (name : String) (after : List Char) :
    (before ++ (quoteName name ++ after)).dropWhile (· ≠ '"') = quoteName name ++ after := by
  rw [List.dropWhile_append_of_pos]
  · rw [quoteName_eq, List.cons_append, List.cons_append, List.dropWhile_cons_of_neg (by simp)]
  · intro c hc
    exact decide_eq_true fun heq => h (heq ▸ hc)

theorem readNames?_succ_iff {names : List (List Char)} {rest : List Char} (h : '"' ∉ before) :
    readNames? (count + 1) (before ++ (quoteName name ++ after)) = some (name.toList :: names, rest)
      ↔ name.toList.getLast? ≠ some '\\' ∧ readNames? count after = some (names, rest) := by
  rw [readNames?, dropWhile_append_quoteName h]
  constructor
  · intro hread
    obtain ⟨⟨first, next⟩, hfirst, hread⟩ := Option.bind_eq_some_iff.mp hread
    obtain ⟨⟨others, last⟩, hothers, heq⟩ := Option.bind_eq_some_iff.mp hread
    simp only [pure, Option.some.injEq, Prod.mk.injEq, List.cons.injEq] at heq
    obtain ⟨⟨rfl, rfl⟩, rfl⟩ := heq
    have hlast := getLast?_of_readName? hfirst
    rw [readName?_quoteName_iff.mpr hlast] at hfirst
    obtain ⟨-, rfl⟩ := Prod.mk.inj (Option.some.inj hfirst)
    exact ⟨hlast, hothers⟩
  · rintro ⟨hlast, hothers⟩
    rw [readName?_quoteName_iff.mpr hlast]
    simp [hothers]

end Statements

/-- In the statement of a node or of an edge the names are read back, each up to its own closing
quote and whatever stands behind the statement, exactly if none of them ends in a backslash. -/
theorem readNames?_statement_iff (cs : List Clause) :
    (∀ c ∈ cs, nodeStatement c ∈ lines cs ∧ ∀ after : List Char,
        readNames? 1 ((nodeStatement c).toList ++ after) = some ([c.name.toList],
            (" [fillcolor=" ++ color c ++ ", style=filled];").toList ++ after)
          ↔ c.name.toList.getLast? ≠ some '\\')
      ∧ ∀ e ∈ edges cs, edgeStatement e ∈ lines cs ∧ ∀ after : List Char,
        readNames? 2 ((edgeStatement e).toList ++ after)
            = some ([e.1.toList, e.2.toList], ';' :: after)
          ↔ e.1.toList.getLast? ≠ some '\\' ∧ e.2.toList.getLast? ≠ some '\\' := by
  refine ⟨fun c hc => ⟨by simp [lines, List.mem_map_of_mem hc], fun after => ?_⟩,
    fun e he => ⟨by simp [lines, List.mem_map_of_mem he], fun after => ?_⟩⟩
  · have htext : (nodeStatement c).toList ++ after = "  ".toList ++ (quoteName c.name
        ++ ((" [fillcolor=" ++ color c ++ ", style=filled];").toList ++ after)) := by
      simp [nodeStatement]
    rw [htext, readNames?_succ_iff (by decide)]
    simp [readNames?]
  · have htext : (edgeStatement e).toList ++ after = "  ".toList ++ (quoteName e.1
        ++ (" -> ".toList ++ (quoteName e.2 ++ (';' :: after)))) := by
      simp [edgeStatement]
    rw [htext, readNames?_succ_iff (by decide), readNames?_succ_iff (by decide)]
    simp [readNames?]

/-- Backslashes and double quotes side by side, and a backslash in front of a parenthesis. -/
theorem readNames?_statement_iff_mixed :
    let c : Clause := ⟨[⟨true, "a\\\"\"b\\\\\""⟩], ["\"\\\\\"", "(not p\\)"], 1⟩
    let e : String × String := ("\"\\\\\"", c.name)
    readNames? 1 (nodeStatement c).toList
        = some ([c.name.toList], " [fillcolor=lightblue, style=filled];".toList)
      ∧ readNames? 2 (edgeStatement e).toList = some ([e.1.toList, e.2.toList], [';']) := by
  intro c e
  obtain ⟨hnodes, hedges⟩ := readNames?_statement_iff [c]
  have hnode := ((hnodes c (by decide)).2 []).mpr (by decide)
  have hedge := ((hedges e (by decide)).2 []).mpr (by decide)
  simp only [List.append_nil] at hnode hedge
  exact ⟨hnode, hedge⟩

/-- The name of the only clause ends in a backslash. Its own closing quote is taken for a part of
the name, and no other double quote follows in the whole text. -/
theorem readNames?_render_backslash :
    let c : Clause := { literals := [⟨true, "a\\"⟩] }
    c.name = "a\\" ∧ nodeStatement c ∈ lines [c] ∧ readNames? 1 (render [c]).toList = none := by
  decide +kernel

end Resolution.DerivationGraph
