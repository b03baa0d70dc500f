import Resolution.KnowledgeBase.Lines
import Resolution.Proofs.Closures
import Resolution.Proofs.RejectedLines

/-!
# Listings read back

The printed form of a literal is cut into the tokens that write it, also when its atom is spelled
like the keyword (`scan_name`), so a printed clause between parentheses is read as the normal form
of the clause (`read_enclosed_format`). The atoms of a closure come from the text that its knowledge base
was read from and are words. So its listing, line by line between parentheses, is a knowledge base
again; as the clauses of a closure are distinct normal forms, reading changes nothing about them
(`exists_ofLines_enclosed`).
-/

namespace Resolution

/-- The tokens that the printed form of a literal has. -/
def Literal.tokens (l : Literal) : List Token :=
  if l.positive then [.word l.atom] else [.opening, .word "not", .word l.atom, .closing]

theorem writesLiteral_tokens (l : Literal) : WritesLiteral l.tokens l := by
  obtain ⟨positive, atom⟩ := l
  cases positive
  · exact .negative atom (by decide)
  · exact .positive atom

theorem writesLiterals_tokens : ∀ ls : List Literal, WritesLiterals (ls.flatMap Literal.tokens) ls
  | [] => .nil
  | l :: ls => .cons (writesLiteral_tokens l) (writesLiterals_tokens ls)

section Scanning

variable {l : Literal} {ls : List Literal} {c : Char}

theorem newline_not_mem_name (hl : IsWord l.atom) : '\n' ∉ l.name.toList := by
  have hatom : '\n' ∉ l.atom.toList := fun h => absurd (hl.letters _ h) (by decide)
  unfold Literal.name
  split_ifs
  · exact hatom
  · simpa using hatom

theorem newline_not_mem_names : ∀ {ls : List Literal}, (∀ l ∈ ls, IsWord l.atom) →
    '\n' ∉ " ".toList.intercalate (ls.map fun l => l.name.toList)
  | [], _ => by simp
  | [l], h => by simpa using newline_not_mem_name (h l (List.mem_singleton_self l))
  | l :: m :: ls, h => by
    rw [List.forall_mem_cons] at h
    have ih := newline_not_mem_names h.2
    rw [List.map_cons, List.map_cons, List.intercalate_cons_cons, List.mem_append, List.mem_append]
    rintro ((hmem | hmem) | hmem)
    · exact newline_not_mem_name h.1 hmem
    · exact absurd hmem (by decide)
    · exact ih hmem

theorem isWord_not : IsWord "not" := by decide

theorem scan_name (hl : IsWord l.atom) (hc : isLetter c = false) (cs : List Char) :
    Token.scan [] (l.name.toList ++ c :: cs)
      = (Token.scan [] (c :: cs)).map (l.tokens ++ ·) := by
  obtain ⟨positive, atom⟩ := l
  cases positive
  · have hname : (Literal.name ⟨false, atom⟩).toList ++ c :: cs
        = '(' :: ("not".toList ++ ' ' :: (atom.toList ++ ')' :: c :: cs)) := by
      simp [Literal.name]
    rw [hname, Token.scan_opening, Token.scan_word isWord_not (by decide), Token.scan_nil_blank (by decide),
      Token.scan_word hl (by decide), Token.scan_closing]
    cases Token.scan [] (c :: cs) <;> rfl
  · exact Token.scan_word hl hc cs

theorem scan_names (hls : ∀ l ∈ ls, IsWord l.atom) :
    Token.scan [] (" ".toList.intercalate (ls.map fun l => l.name.toList) ++ [')'])
      = .ok (ls.flatMap Literal.tokens ++ [.closing]) := by
  induction ls with
  | nil => rfl
  | cons l ls ih =>
    rw [List.forall_mem_cons] at hls
    rcases ls with _ | ⟨m, ls⟩
    · have hclose : Token.scan [] [')'] = .ok [.closing] := rfl
      rw [List.map_singleton, List.intercalate_singleton, scan_name hls.1 (by decide), hclose]
      simp [Except.map]
    · have hnames : " ".toList.intercalate ((l :: m :: ls).map fun l => l.name.toList) ++ [')']
          = l.name.toList ++ ' '
            :: (" ".toList.intercalate ((m :: ls).map fun l => l.name.toList) ++ [')']) := by
        simp [List.intercalate_cons_cons]
      rw [hnames, scan_name hls.1 (by decide), Token.scan_nil_blank (by decide), ih hls.2]
      simp [Except.map]

end Scanning

namespace Clause

variable {c : Clause}

/-- The printed clause between parentheses. -/
def enclosed (line : String) : String :=
  "(" ++ line ++ ")"

theorem toList_enclosed (line : String) : (enclosed line).toList = '(' :: line.toList ++ [')'] := by
  simp [enclosed]

theorem toList_format (c : Clause) :
    c.format.toList = " ".toList.intercalate (c.literals.map fun l => l.name.toList) := by
  rw [format, String.toList_intercalate, List.map_map]
  rfl

theorem read_enclosed_format (h : ∀ l ∈ c.literals, IsWord l.atom) :
    read (enclosed c.format) = .ok { literals := c.standardize.literals } := by
  have hts : tokenize (enclosed c.format)
      = .ok (.opening :: c.literals.flatMap Literal.tokens ++ [.closing]) := by
    rw [tokenize, toList_enclosed, List.cons_append, Token.scan_opening, toList_format, scan_names h]
    rfl
  exact read_eq_ok_iff.mpr ⟨{ literals := c.literals }, written_eq_ok_iff.mpr
    ⟨_, _, hts, .intro (writesLiterals_tokens c.literals), rfl⟩, rfl⟩

/-- A clause over words in normal form is known by its name. -/
theorem literals_eq_of_name_eq {d : Clause} (hc : ∀ l ∈ c.literals, IsWord l.atom)
    (hd : ∀ l ∈ d.literals, IsWord l.atom) (hcn : NormalForm c.literals)
    (hdn : NormalForm d.literals) (hce : c.isEmpty = false) (hde : d.isEmpty = false)
    (h : c.name = d.name) : c.literals = d.literals := by
  have hformat : c.format = d.format := by
    simpa [name, hce, hde] using h
  have hread := read_enclosed_format hc
  rw [hformat, read_enclosed_format hd, standardize_of_normalForm hcn,
    standardize_of_normalForm hdn] at hread
  exact (congrArg literals (Except.ok.inj hread)).symm

end Clause

section Lines

variable {cs : List Clause} {lines : List String}

/-- The lines of a printed text, without the line feeds that end them. -/
def printedLines (s : String) : List String :=
  (Text.splitAfter '\n' s.toList).map fun line => .ofList (line.filter (· ≠ '\n'))

theorem printedLines_unlines : ∀ {lines : List String}, (∀ line ∈ lines, '\n' ∉ line.toList) →
    printedLines (Text.unlines lines) = lines
  | [], _ => rfl
  | line :: lines, h => by
    rw [List.forall_mem_cons] at h
    have htext : (Text.unlines (line :: lines)).toList
        = line.toList ++ '\n' :: (Text.unlines lines).toList := by
      simp [Text.unlines]
    have hletters : ∀ c ∈ line.toList, c ≠ '\n' := by
      rintro _ hc rfl
      exact h.1 hc
    have hline : (line.toList ++ ['\n']).filter (· ≠ '\n') = line.toList := by
      simpa [List.filter_append] using hletters
    rw [printedLines, htext, Text.splitAfter_append h.1, List.map_cons, hline,
      String.ofList_toList, ← printedLines, printedLines_unlines h.2]

theorem trim_enclosed (line : String) : Text.trim (Clause.enclosed line) = Clause.enclosed line := by
  have hopen : Text.isBlank '(' = false := by decide
  have hclose : Text.isBlank ')' = false := by decide
  rw [Text.trim, Clause.toList_enclosed]
  simp [Text.trimStart, Text.trimEnd, hopen, hclose, Clause.enclosed, String.append_assoc]

theorem readLines_enclosed : ∀ (cs : List Clause) (number : ℕ),
    (∀ c ∈ cs, ∀ l ∈ c.literals, IsWord l.atom) →
      readLines number (cs.map fun c => .text (Clause.enclosed c.format))
        = .ok (cs.map fun c => { literals := c.standardize.literals })
  | [], _, _ => rfl
  | c :: cs, number, h => by
    rw [List.forall_mem_cons] at h
    have hactive : Active (Clause.enclosed c.format) := by
      rw [active_iff, trim_enclosed, isSkipped, Clause.toList_enclosed]
      rfl
    rw [List.map_cons, readLines_of_read_ok hactive (Clause.read_enclosed_format h.1),
      readLines_enclosed cs _ h.2]
    rfl

/-- Distinct normal forms over words are a knowledge base again when they are read. -/
theorem exists_ofLines_enclosed (hwords : ∀ c ∈ cs, ∀ l ∈ c.literals, IsWord l.atom)
    (hnormal : ∀ c ∈ cs, NormalForm c.literals) (hne : ∀ c ∈ cs, c.literals ≠ [])
    (hdistinct : (cs.map Clause.literals).Nodup) :
    ∃ again, Reading.ofLines (cs.map fun c => .text (Clause.enclosed c.format)) = .ok again
      ∧ again.kb.toList.map Clause.literals = cs.map Clause.literals ∧ again.kb.dropped = [] := by
  let ds : List Clause := cs.map fun c => { literals := c.literals }
  have hds : ds.map Clause.literals = cs.map Clause.literals := by simp [ds]
  -- of a normal form, reading leaves out nothing but the record
  have hread : readLines 1 (cs.map fun c => .text (Clause.enclosed c.format)) = .ok ds := by
    rw [readLines_enclosed cs 1 hwords]
    refine congrArg Except.ok (List.map_congr_left fun c hc => ?_)
    rw [Clause.standardize_of_normalForm (hnormal c hc)]
  have hkb : (KnowledgeBase.ofList ds).toList = ds ∧ (KnowledgeBase.ofList ds).dropped = [] :=
    KnowledgeBase.ofList_of_normalForm (List.forall_mem_map.mpr hnormal)
      (List.forall_mem_map.mpr fun c hc => Clause.isEmpty_eq_false_iff.mpr (hne c hc))
      (hds ▸ hdistinct)
  refine ⟨⟨ds.length, .ofList ds⟩, ?_, ?_, hkb.2⟩
  · rw [Reading.ofLines, hread]
    rfl
  · rw [hkb.1, hds]

theorem exists_read_of_mem_readLines : ∀ (lines : List Line) (number : ℕ) {cs : List Clause}
    {c : Clause}, readLines number lines = .ok cs → c ∈ cs → ∃ s, Clause.read s = .ok c
  | [], _, _, _, h, hc => by
    obtain rfl := Except.ok.inj h
    exact absurd hc List.not_mem_nil
  | .damaged _ _ :: _, _, _, _, h, _ => by simp [readLines] at h
  | .text s :: lines, number, cs, c, h, hc => by
    by_cases hactive : Active s
    · rcases hread : Clause.read s with e | d
      · rw [readLines_of_read_error hactive hread] at h
        cases h
      · rw [readLines_of_read_ok hactive hread] at h
        obtain ⟨ds, hds, rfl⟩ := map_eq_ok_iff.mp h
        rcases List.mem_cons.mp hc with rfl | hc
        · exact ⟨s, hread⟩
        · exact exists_read_of_mem_readLines lines _ hds hc
    · rw [readLines_of_not_active hactive] at h
      exact exists_read_of_mem_readLines lines _ h hc

theorem source_step_of_mem_readLines {lines : List Line} {number : ℕ} {cs : List Clause}
    {c : Clause} (h : readLines number lines = .ok cs) (hc : c ∈ cs) :
    c.source = [] ∧ c.step = 0 := by
  obtain ⟨s, hs⟩ := exists_read_of_mem_readLines lines number h hc
  exact Clause.source_step_of_read hs

end Lines

section Closures

variable {lines : List Line} {reading : Reading} {limit : Option ℤ} {stop : StopCondition}
  {c : Clause} {l : Literal}

theorem isWord_of_mem_closure (h : Reading.ofLines lines = .ok reading)
    (hc : c ∈ (closure reading.kb.toList limit stop).toList) (hl : l ∈ c.literals) :
    IsWord l.atom := by
  obtain ⟨cs, hcs, rfl⟩ := map_eq_ok_iff.mp h
  obtain ⟨k, hk, hlk⟩ := ((grown_toList_closure _ limit stop).normalWithin c hc).literals_mem l hl
  obtain ⟨d, hd, rfl⟩ := KnowledgeBase.exists_eq_standardize hk
  obtain ⟨e, he, rfl⟩ := KnowledgeBase.exists_eq_standardize hd
  obtain ⟨s, hs⟩ := exists_read_of_mem_readLines lines 1 hcs he
  exact Clause.isWord_of_read hs (Clause.mem_standardize.mp (Clause.mem_standardize.mp hlk).1).1

end Closures

/-- A clause over words, printed and put in parentheses, is read as its normal form. So of every
knowledge base that is read from lines of text, the printed closure reads back as it is: line by
line in parentheses, it gives the same clauses in the same order, and no empty one. -/
theorem read_listing :
    (∀ c : Clause, (∀ l ∈ c.literals, IsWord l.atom) →
      ∃ d, Clause.read (Clause.enclosed c.format) = .ok d
        ∧ d.literals = c.standardize.literals)
    ∧ ∀ (lines : List String) (reading : Reading) (limit : Option ℤ) (stop : StopCondition),
      Reading.ofLines (lines.map .text) = .ok reading →
        let cs := (closure reading.kb.toList limit stop).toList
        ∃ again, Reading.ofLines ((printedLines (Clause.listing cs)).map fun line =>
            .text (Clause.enclosed line)) = .ok again
          ∧ again.kb.toList.map Clause.literals = cs.map Clause.literals
          ∧ again.kb.dropped = [] := by
  refine ⟨fun c h => ⟨_, Clause.read_enclosed_format h, rfl⟩, ?_⟩
  intro lines reading limit stop h cs
  have hwords : ∀ c ∈ cs, ∀ l ∈ c.literals, IsWord l.atom := fun c hc l hl =>
    isWord_of_mem_closure h hc hl
  have hlines : printedLines (Clause.listing cs) = cs.map Clause.format := by
    refine printedLines_unlines ?_
    rintro _ hline
    obtain ⟨c, hc, rfl⟩ := List.mem_map.mp hline
    rw [Clause.toList_format]
    exact newline_not_mem_names (hwords c hc)
  rw [hlines, List.map_map]
  exact exists_ofLines_enclosed hwords (fun c hc => normalForm_of_mem_closure hc)
    (fun c hc => literals_ne_nil_of_mem_closure hc) (closure reading.kb.toList limit stop).known.distinct

/-- A clause out of order with an atom spelled like the keyword, and the closure of two lines that
resolve on such an atom. -/
theorem read_listing_not :
    let c : Clause := ⟨[⟨true, "not"⟩, ⟨false, "b"⟩, ⟨false, "a"⟩], [], 0⟩
    let lines := ["; a comment", "((NOT not) b)", "( not a)"]
    let reading : Reading := ⟨2, .ofList [⟨[⟨false, "not"⟩, ⟨true, "b"⟩], [], 0⟩,
      ⟨[⟨true, "a"⟩, ⟨true, "not"⟩], [], 0⟩]⟩
    let cs := (closure reading.kb.toList).toList
    (∀ l ∈ c.literals, IsWord l.atom)
      ∧ (∃ d, Clause.read (Clause.enclosed c.format) = .ok d
        ∧ d.literals = c.standardize.literals)
      ∧ Reading.ofLines (lines.map .text) = .ok reading
      ∧ ∃ again, Reading.ofLines ((printedLines (Clause.listing cs)).map fun line =>
            .text (Clause.enclosed line)) = .ok again
          ∧ again.kb.toList.map Clause.literals = cs.map Clause.literals
          ∧ again.kb.dropped = [] := by
  intro c lines reading cs
  have hwords : ∀ l ∈ c.literals, IsWord l.atom := by decide
  have hreading : Reading.ofLines (lines.map .text) = .ok reading := rfl
  exact ⟨hwords, read_listing.1 c hwords, hreading,
    read_listing.2 lines reading none .never hreading⟩

end Resolution
