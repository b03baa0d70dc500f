import Mathlib.Data.List.Basic
import Mathlib.Data.List.TakeWhile
import Resolution.Clause.Grammar
import Resolution.Proofs.NormalForm

/-!
# What is read of a text

A word goes on until something ends it, so a word in front of a text that does not continue it is
a token of its own (`scan_word`), and every token that is no parenthesis is a word
(`isWord_of_mem_tokenize`). Only a semicolon keeps a text from being cut into tokens
(`exists_tokenize_eq_ok_iff`), and blanks around it make no difference (`tokenize_trim`).

Literals are read off their tokens one after the other, with no choice anywhere: the tokens of a
clause are read as the literals that they write, and nothing else is read
(`literalsOfTokens_eq_ok_iff`).
-/

namespace Resolution

theorem map_eq_ok_iff {ε α β : Type*} {f : α → β} {x : Except ε α} {b : β} :
    x.map f = .ok b ↔ ∃ a, x = .ok a ∧ f a = b := by
  cases x <;> simp [Except.map]

/-- What can stand as an atom in a text. -/
structure IsWord (w : String) : Prop where
  nonempty : w.toList ≠ []
  letters : ∀ c ∈ w.toList, isLetter c = true

theorem isWord_iff {w : String} :
    IsWord w ↔ (!w.toList.isEmpty && w.toList.all isLetter) = true := by
  simp only [Bool.and_eq_true, Bool.not_eq_true', List.isEmpty_eq_false_iff, List.all_eq_true]
  exact ⟨fun h => ⟨h.nonempty, h.letters⟩, fun h => ⟨h.1, h.2⟩⟩

instance (w : String) : Decidable (IsWord w) :=
  decidable_of_iff _ isWord_iff.symm

namespace Token

section Scanning

variable {letters cs : List Char} {c : Char}

theorem scan_letter (h : isLetter c = true) : scan letters (c :: cs) = scan (c :: letters) cs := by
  simp only [isLetter, Bool.not_eq_true', Bool.or_eq_false_iff, decide_eq_false_iff_not] at h
  obtain ⟨⟨⟨hsemi, hblank⟩, hopen⟩, hclose⟩ := h
  simp [scan, hsemi, hblank, hopen, hclose]

theorem scan_letters {w : List Char} (h : ∀ c ∈ w, isLetter c = true) (cs letters : List Char) :
    scan letters (w ++ cs) = scan (w.reverse ++ letters) cs := by
  induction w generalizing letters with
  | nil => rfl
  | cons c w ih =>
    rw [List.forall_mem_cons] at h
    rw [List.cons_append, scan_letter h.1, ih h.2]
    simp

/-- What is not part of a word ends the one before it. -/
theorem scan_of_not_letter (hc : isLetter c = false) (cs : List Char) :
    scan letters (c :: cs) = (scan [] (c :: cs)).map (endWord letters) := by
  simp only [isLetter, Bool.not_eq_false', Bool.or_eq_true, decide_eq_true_eq] at hc
  unfold scan
  split_ifs with h1 h2 h3 h4
  · rfl
  · rcases scan [] cs <;> rfl
  · rcases scan [] cs <;> rfl
  · rcases scan [] cs <;> rfl
  · simp_all

theorem endWord_word {w : String} (hw : IsWord w) (ts : List Token) :
    endWord w.toList.reverse ts = .word w :: ts := by
  simp [endWord, hw.nonempty]

theorem scan_word {w : String} (hw : IsWord w) (hc : isLetter c = false) (cs : List Char) :
    scan [] (w.toList ++ c :: cs) = (scan [] (c :: cs)).map (.word w :: ·) := by
  rw [scan_letters hw.letters, List.append_nil, scan_of_not_letter hc, funext (endWord_word hw)]

theorem scan_word_end {w : String} (hw : IsWord w) : scan [] w.toList = .ok [.word w] := by
  rw [← List.append_nil w.toList, scan_letters hw.letters, List.append_nil, scan, endWord_word hw]

theorem scan_opening : scan [] ('(' :: cs) = (scan [] cs).map (.opening :: ·) := by
  rw [scan, if_neg (by decide), if_neg (by decide), if_pos rfl]
  rfl

theorem scan_closing : scan [] (')' :: cs) = (scan [] cs).map (.closing :: ·) := by
  rw [scan, if_neg (by decide), if_neg (by decide), if_neg (by decide), if_pos rfl]
  rfl

theorem isWord_of_mem_endWord {ts : List Token} {w : String} (hl : ∀ c ∈ letters, isLetter c = true)
    (h : .word w ∈ endWord letters ts) : IsWord w ∨ .word w ∈ ts := by
  unfold endWord at h
  split_ifs at h with hnil
  · exact .inr h
  · rcases List.mem_cons.mp h with heq | h
    · obtain rfl := Token.word.inj heq
      exact .inl ⟨by simpa using hnil, fun c hc => hl c (by simpa using hc)⟩
    · exact .inr h

/-- A character that is no letter is a parenthesis or leaves no token. -/
theorem tokens_of_not_letter {ts : List Token} (hc : isLetter c = false)
    (h : scan letters (c :: cs) = .ok ts) :
    ∃ us vs, scan [] cs = .ok us ∧ ts = endWord letters vs
      ∧ (vs = us ∨ vs = .opening :: us ∨ vs = .closing :: us) := by
  simp only [isLetter, Bool.not_eq_false', Bool.or_eq_true, decide_eq_true_eq] at hc
  unfold scan at h
  split_ifs at h with h1 h2 h3 h4
  · obtain ⟨us, hus, rfl⟩ := map_eq_ok_iff.mp h
    exact ⟨us, us, hus, rfl, .inl rfl⟩
  · obtain ⟨us, hus, rfl⟩ := map_eq_ok_iff.mp h
    exact ⟨us, _, hus, rfl, .inr (.inl rfl)⟩
  · obtain ⟨us, hus, rfl⟩ := map_eq_ok_iff.mp h
    exact ⟨us, _, hus, rfl, .inr (.inr rfl)⟩
  · simp_all

theorem isWord_of_mem_scan {w : String} : ∀ (cs letters : List Char) (ts : List Token),
    scan letters cs = .ok ts → (∀ c ∈ letters, isLetter c = true) → .word w ∈ ts → IsWord w
  | [], letters, ts, h, hl, hw => by
    simp only [scan, Except.ok.injEq] at h
    subst h
    exact (isWord_of_mem_endWord hl hw).resolve_right List.not_mem_nil
  | c :: cs, letters, ts, h, hl, hw => by
    by_cases hc : isLetter c = true
    · rw [scan_letter hc] at h
      exact isWord_of_mem_scan cs _ ts h (List.forall_mem_cons.mpr ⟨hc, hl⟩) hw
    · obtain ⟨us, vs, hus, rfl, hvs⟩ := tokens_of_not_letter (by simpa using hc) h
      rcases isWord_of_mem_endWord hl hw with hword | hmem
      · exact hword
      · refine isWord_of_mem_scan cs [] us hus (by simp) ?_
        rcases hvs with rfl | rfl | rfl <;> simpa using hmem

end Scanning

section Refusing

variable {letters cs : List Char} {c : Char}

/-- What is no letter ends the word before it, whatever it is in front of. -/
theorem exists_scan_of_not_letter (hc : isLetter c = false) (hs : c ≠ ';') (letters : List Char) :
    ∃ f : List Token → List Token, ∀ cs, scan letters (c :: cs) = (scan [] cs).map f := by
  simp only [isLetter, Bool.not_eq_false', Bool.or_eq_true, decide_eq_true_eq] at hc
  by_cases hblank : Text.isBlank c = true
  · exact ⟨_, fun cs => by rw [scan, if_neg hs, if_pos hblank]⟩
  by_cases hopen : c = '('
  · exact ⟨_, fun cs => by rw [scan, if_neg hs, if_neg hblank, if_pos hopen]⟩
  by_cases hclose : c = ')'
  · exact ⟨_, fun cs => by rw [scan, if_neg hs, if_neg hblank, if_neg hopen, if_pos hclose]⟩
  · simp_all

/-- Nothing but a semicolon is refused. -/
theorem exists_scan_eq_ok_iff : (∃ ts, scan letters cs = .ok ts) ↔ ';' ∉ cs := by
  induction cs generalizing letters with
  | nil => simp [scan]
  | cons c cs ih =>
    rw [List.mem_cons, not_or]
    by_cases hs : ';' = c
    · subst hs
      simp [scan]
    rw [and_iff_right hs]
    by_cases hc : isLetter c = true
    · rw [scan_letter hc, ih]
    · obtain ⟨f, hf⟩ := exists_scan_of_not_letter (by simpa using hc) (Ne.symm hs) letters
      simp only [hf, map_eq_ok_iff, ← @ih []]
      exact ⟨fun ⟨_, us, hus, _⟩ => ⟨us, hus⟩, fun ⟨us, hus⟩ => ⟨_, us, hus, rfl⟩⟩

end Refusing

section Trimming

variable {letters cs bs : List Char} {c : Char}

theorem scan_blank (hc : Text.isBlank c = true) (letters cs : List Char) :
    scan letters (c :: cs) = (scan [] cs).map (endWord letters) := by
  have hs : c ≠ ';' := by
    rintro rfl
    exact absurd hc (by decide)
  rw [scan, if_neg hs, if_pos hc]

theorem scan_nil_blank (hc : Text.isBlank c = true) (cs : List Char) :
    scan [] (c :: cs) = scan [] cs := by
  rw [scan_blank hc]
  cases scan [] cs <;> rfl

theorem scan_trimStart : ∀ cs : List Char, scan [] (Text.trimStart cs) = scan [] cs
  | [] => rfl
  | c :: cs => by
    by_cases hc : Text.isBlank c = true
    · rw [Text.trimStart, List.dropWhile_cons_of_pos hc, ← Text.trimStart, scan_trimStart cs,
        scan_nil_blank hc]
    · rw [Text.trimStart, List.dropWhile_cons_of_neg hc]

theorem scan_blanks : ∀ {bs : List Char}, (∀ b ∈ bs, Text.isBlank b = true) →
    ∀ letters, scan letters bs = .ok (endWord letters [])
  | [], _, _ => rfl
  | b :: bs, h, letters => by
    rw [List.forall_mem_cons] at h
    rw [scan_blank h.1, scan_blanks h.2]
    rfl

theorem scan_append_blanks (hbs : ∀ b ∈ bs, Text.isBlank b = true) (letters cs : List Char) :
    scan letters (cs ++ bs) = scan letters cs := by
  induction cs generalizing letters with
  | nil => exact scan_blanks hbs letters
  | cons c cs ih => simp only [List.cons_append, scan, ih]

theorem scan_trimEnd (letters cs : List Char) :
    scan letters (Text.trimEnd cs) = scan letters cs := by
  have hsplit : Text.trimEnd cs ++ (cs.reverse.takeWhile Text.isBlank).reverse = cs := by
    rw [Text.trimEnd, ← List.reverse_append, List.takeWhile_append_dropWhile, List.reverse_reverse]
  have hblank : ∀ b ∈ (cs.reverse.takeWhile Text.isBlank).reverse, Text.isBlank b = true :=
    fun b hb => List.mem_takeWhile_imp (List.mem_reverse.mp hb)
  rw [← scan_append_blanks hblank, hsplit]

end Trimming

end Token

/-- A text can be cut into tokens iff it has no semicolon. -/
theorem exists_tokenize_eq_ok_iff {s : String} : (∃ ts, tokenize s = .ok ts) ↔ ';' ∉ s.toList :=
  Token.exists_scan_eq_ok_iff

theorem tokenize_trim (s : String) : tokenize (Text.trim s) = tokenize s := by
  rw [tokenize, Text.toList_trim, Token.scan_trimEnd, Token.scan_trimStart, tokenize]

theorem isWord_of_mem_tokenize {s w : String} {ts : List Token} (h : tokenize s = .ok ts)
    (hw : .word w ∈ ts) : IsWord w :=
  Token.isWord_of_mem_scan _ _ _ h (by simp) hw

section Literals

variable {ts us : List Token} {ls : List Literal} {t : Token} {l : Literal}

theorem readLiterals_word (atom : String) (h : ts ≠ []) :
    readLiterals (.word atom :: ts) = (readLiterals ts).map (⟨true, atom⟩ :: ·) := by
  rcases ts with _ | ⟨t, ts⟩
  · exact absurd rfl h
  · rfl

theorem readLiterals_of_writes (h : WritesLiterals us ls) (t : Token) :
    readLiterals (us ++ [t]) = .ok ls := by
  induction h with
  | nil => rfl
  | @cons ts us l ls hl hls ih =>
    cases hl with
    | positive atom =>
      rw [List.append_assoc, List.singleton_append, readLiterals_word atom (by simp), ih]
      rfl
    | negative atom hk =>
      simp [readLiterals, hk, ih, Except.map]

theorem writes_of_readLiterals (h : readLiterals ts = .ok ls) :
    ∃ us t, ts = us ++ [t] ∧ WritesLiterals us ls := by
  fun_induction readLiterals ts generalizing ls with
  | case1 => simp at h
  | case2 t =>
    obtain rfl := Except.ok.inj h
    exact ⟨[], t, rfl, .nil⟩
  | case3 atom ts hne ih =>
    obtain ⟨ms, hms, rfl⟩ := map_eq_ok_iff.mp h
    obtain ⟨us, t, rfl, hus⟩ := ih hms
    exact ⟨_, t, (List.append_assoc [_] us [t]).symm, .cons (.positive atom) hus⟩
  | case4 => simp at h
  | case5 keyword atom ts hk ih =>
    obtain ⟨ms, hms, rfl⟩ := map_eq_ok_iff.mp h
    obtain ⟨us, t, rfl, hus⟩ := ih hms
    exact ⟨_, t, (List.append_assoc [_, _, _, _] us [t]).symm, .cons (.negative atom hk) hus⟩
  | case6 => simp at h
  | case7 => simp at h

theorem literalsOfTokens_eq_ok_iff : literalsOfTokens ts = .ok ls ↔ WritesClause ts ls := by
  constructor
  · intro h
    unfold literalsOfTokens at h
    split_ifs at h with hhead hlast
    rw [not_not] at hhead hlast
    obtain ⟨us, t, htail, hus⟩ := writes_of_readLiterals h
    rcases ts with _ | ⟨x, xs⟩
    · simp at hhead
    · obtain rfl : x = .opening := by simpa using hhead
      obtain rfl : xs = us ++ [t] := htail
      rw [← List.cons_append, List.getLast?_concat] at hlast
      obtain rfl := Option.some.inj hlast
      exact .intro hus
  · rintro ⟨hus⟩
    rw [literalsOfTokens, List.getLast?_concat]
    simp [readLiterals_of_writes hus]

theorem word_mem_of_writes (h : WritesLiterals ts ls) (hl : l ∈ ls) : .word l.atom ∈ ts := by
  induction h with
  | nil => exact absurd hl List.not_mem_nil
  | @cons ts us m ms hm hms ih =>
    rw [List.mem_append]
    rcases List.mem_cons.mp hl with rfl | hl
    · left
      cases hm <;> simp
    · exact .inr (ih hl)

end Literals

namespace Clause

variable {s : String} {c : Clause} {l : Literal}

theorem written_eq_ok_iff : written s = .ok c ↔
    ∃ ts ls, tokenize s = .ok ts ∧ WritesClause ts ls ∧ c = { literals := ls } := by
  simp only [← literalsOfTokens_eq_ok_iff]
  unfold written
  rcases tokenize s with e | ts
  · simp [bind, Except.bind]
  rcases hls : literalsOfTokens ts with e | ls
  · simp [hls, bind, Except.bind]
  · simp [hls, bind, Except.bind, pure, Except.pure, eq_comm]

theorem read_eq_ok_iff : read s = .ok c ↔ ∃ d, written s = .ok d ∧ d.standardize = c :=
  map_eq_ok_iff

theorem written_trim (s : String) : written (Text.trim s) = written s := by
  rw [written, tokenize_trim, written]

theorem read_trim (s : String) : read (Text.trim s) = read s := by
  rw [read, written_trim, read]

/-- Every atom of a clause that is read was a word of the text. -/
theorem isWord_of_read (h : read s = .ok c) (hl : l ∈ c.literals) : IsWord l.atom := by
  obtain ⟨d, hd, rfl⟩ := read_eq_ok_iff.mp h
  obtain ⟨ts, ls, hts, ⟨hus⟩, rfl⟩ := written_eq_ok_iff.mp hd
  have hmem := word_mem_of_writes hus (mem_standardize.mp hl).1
  exact isWord_of_mem_tokenize hts (by simp [hmem])

/-- A clause that is read has no parents. -/
theorem source_step_of_read (h : read s = .ok c) : c.source = [] ∧ c.step = 0 := by
  obtain ⟨d, hd, rfl⟩ := read_eq_ok_iff.mp h
  obtain ⟨_, _, _, _, rfl⟩ := written_eq_ok_iff.mp hd
  exact ⟨rfl, rfl⟩

end Clause

end Resolution
