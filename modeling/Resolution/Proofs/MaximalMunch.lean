import Resolution.Proofs.Tokens
import Resolution.Token.Matching

/-!
# How tokens lie in a text

A text holds nothing but blanks, or begins, behind any blanks, with a token or with a semicolon
(`layout_cases`, `layout_induction`). Cutting it into tokens and matching the pattern on it see the
same of the three, so they come to the same (`tokensFrom_eq`), and both take each word as far as it
goes.

How the tokens lie is a relation, `Laid`, and they are cut from a text iff they lie in it
(`scan_eq_ok_iff`). What else is known of them is read off `Laid`, token by token: nothing but
blanks is left out, and no letter stands beside a word (`maximalMunch_of_tokenize`).
-/

namespace Resolution

theorem not_isLetter_of_isBlank {c : Char} (h : Text.isBlank c = true) : isLetter c = false := by
  simp [isLetter, h]

/-- Where no letter may come, there is no word. -/
theorem IsWord.false_of_head {w : String} {rest : List Char} (hw : IsWord w)
    (h : ∀ c ∈ (w.toList ++ rest).head?, isLetter c = false) : False := by
  obtain ⟨l, ls, hl⟩ := List.exists_cons_of_ne_nil hw.nonempty
  have hhead := h l (by simp [hl])
  rw [hw.letters l (by simp [hl])] at hhead
  exact Bool.false_ne_true hhead.symm

namespace Token

/-- The token ends where `rest` begins: no word goes on there. -/
def EndsBefore (rest : List Char) : Token → Prop
  | .word w => IsWord w ∧ ∀ c ∈ rest.head?, isLetter c = false
  | _ => True

/-- The tokens lie in the text one after the other, with blanks around them or none, and each of
them as far as it goes. -/
inductive Laid : List Token → List Char → Prop where
  | nil {bs : List Char} : (∀ b ∈ bs, Text.isBlank b = true) → Laid [] bs
  | cons {bs rest : List Char} {t : Token} {ts : List Token} :
      (∀ b ∈ bs, Text.isBlank b = true) → t.EndsBefore rest → Laid ts rest →
        Laid (t :: ts) (bs ++ (t.text.toList ++ rest))

variable {bs rest cs : List Char} {t : Token} {ts us : List Token} {c : Char}

namespace EndsBefore

theorem text_ne_nil (h : t.EndsBefore rest) : t.text.toList ≠ [] := by
  cases t with
  | opening => decide
  | closing => decide
  | word w => exact h.1.nonempty

/-- No character of a token is blank. -/
theorem not_isBlank (h : t.EndsBefore rest) : ∀ c ∈ t.text.toList, Text.isBlank c = false := by
  cases t with
  | opening => exact List.forall_mem_singleton.mpr (by decide)
  | closing => exact List.forall_mem_singleton.mpr (by decide)
  | word w =>
    intro c hc
    by_contra hblank
    rw [Bool.not_eq_false] at hblank
    exact Bool.false_ne_true ((not_isLetter_of_isBlank hblank).symm.trans (h.1.letters c hc))

theorem not_isBlank_head (h : t.EndsBefore rest) :
    ∀ c ∈ (t.text.toList ++ rest).head?, Text.isBlank c = false := by
  intro c hc
  rw [List.head?_append_of_ne_nil _ h.text_ne_nil] at hc
  exact h.not_isBlank c (List.mem_of_mem_head? hc)

end EndsBefore

/-- A run goes exactly up to the first character that does not belong to it. -/
theorem span_append {p : Char → Bool} {ls : List Char} (hls : ∀ c ∈ ls, p c = true)
    (hrest : ∀ c ∈ rest.head?, p c = false) :
    (ls ++ rest).takeWhile p = ls ∧ (ls ++ rest).dropWhile p = rest := by
  rw [List.takeWhile_append_of_pos hls, List.dropWhile_append_of_pos hls]
  rcases rest with _ | ⟨c, rest⟩
  · simp
  · have hc := hrest c rfl
    simp [hc]

theorem tokenHere?_append (h : t.EndsBefore rest) :
    tokenHere? (t.text.toList ++ rest) = some (t, rest) := by
  cases t with
  | opening => rfl
  | closing => rfl
  | word w =>
    obtain ⟨⟨hne, hletters⟩, hrest⟩ := h
    obtain ⟨l, ls, hw⟩ := List.exists_cons_of_ne_nil hne
    rw [hw, List.forall_mem_cons] at hletters
    obtain ⟨htake, hdrop⟩ := span_append hletters.2 hrest
    have hopen : l ≠ '(' := by
      rintro rfl
      exact absurd hletters.1 (by decide)
    have hclose : l ≠ ')' := by
      rintro rfl
      exact absurd hletters.1 (by decide)
    rw [text, hw, List.cons_append, tokenHere?, if_neg hopen, if_neg hclose, if_pos hletters.1,
      htake, hdrop, ← hw, String.ofList_toList]

theorem eq_of_tokenHere? (h : tokenHere? cs = some (t, rest)) :
    t.EndsBefore rest ∧ cs = t.text.toList ++ rest := by
  rcases cs with _ | ⟨c, cs⟩
  · simp [tokenHere?] at h
  rw [tokenHere?] at h
  split_ifs at h with hopen hclose hletter
  · obtain ⟨rfl, rfl⟩ := Prod.mk.inj (Option.some.inj h)
    exact ⟨trivial, congrArg (· :: cs) hopen⟩
  · obtain ⟨rfl, rfl⟩ := Prod.mk.inj (Option.some.inj h)
    exact ⟨trivial, congrArg (· :: cs) hclose⟩
  · obtain ⟨rfl, rfl⟩ := Prod.mk.inj (Option.some.inj h)
    refine ⟨⟨⟨by simp, ?_⟩, fun d hd => ?_⟩, by simp [text]⟩
    · rw [String.toList_ofList, List.forall_mem_cons]
      exact ⟨hletter, fun d hd => List.mem_takeWhile_imp hd⟩
    · have hstop := List.head?_dropWhile_not isLetter cs
      rw [Option.mem_def.mp hd] at hstop
      simpa using hstop

theorem tokenHere?_cons_eq_none :
    tokenHere? (c :: cs) = none ↔ Text.isBlank c = true ∨ c = ';' := by
  constructor
  · intro h
    rw [tokenHere?] at h
    split_ifs at h with hopen hclose hletter
    have hblank : c ≠ ';' → Text.isBlank c = true := by
      simpa [isLetter, hopen, hclose] using hletter
    exact (em (c = ';')).elim .inr fun hne => .inl (hblank hne)
  · rintro (hblank | rfl)
    · have hopen : c ≠ '(' := by
        rintro rfl
        exact absurd hblank (by decide)
      have hclose : c ≠ ')' := by
        rintro rfl
        exact absurd hblank (by decide)
      rw [tokenHere?, if_neg hopen, if_neg hclose, not_isLetter_of_isBlank hblank]
      rfl
    · rfl

/-- What a text begins with, behind any blanks. -/
theorem layout_cases (cs : List Char) : (∀ b ∈ cs, Text.isBlank b = true)
    ∨ (∃ (bs rest : List Char) (t : Token), (∀ b ∈ bs, Text.isBlank b = true) ∧ t.EndsBefore rest
      ∧ cs = bs ++ (t.text.toList ++ rest))
    ∨ ∃ bs rest : List Char, (∀ b ∈ bs, Text.isBlank b = true) ∧ cs = bs ++ ';' :: rest := by
  have hblanks : ∀ b ∈ cs.takeWhile Text.isBlank, Text.isBlank b = true := fun b hb =>
    List.mem_takeWhile_imp hb
  have hsplit := List.takeWhile_append_dropWhile (p := Text.isBlank) (l := cs)
  have hhead := List.head?_dropWhile_not Text.isBlank cs
  generalize cs.takeWhile Text.isBlank = bs at hblanks hsplit
  rcases hrest : cs.dropWhile Text.isBlank with _ | ⟨c, rest⟩
  · rw [hrest, List.append_nil] at hsplit
    exact .inl (hsplit ▸ hblanks)
  rw [hrest] at hsplit hhead
  rcases htoken : tokenHere? (c :: rest) with _ | ⟨t, after⟩
  · rcases tokenHere?_cons_eq_none.mp htoken with hblank | rfl
    · simp [hblank] at hhead
    · exact .inr (.inr ⟨bs, rest, hblanks, hsplit.symm⟩)
  · obtain ⟨hends, heq⟩ := eq_of_tokenHere? htoken
    exact .inr (.inl ⟨bs, after, t, hblanks, hends, by rw [← heq, hsplit]⟩)

theorem length_rest_lt (h : t.EndsBefore rest) :
    rest.length < (bs ++ (t.text.toList ++ rest)).length := by
  have hpos := List.length_pos_iff.mpr h.text_ne_nil
  rw [List.length_append, List.length_append]
  omega

/-- The texts token by token: what holds of one behind its first token holds of it. -/
theorem layout_induction {P : List Char → Prop}
    (blanks : ∀ bs, (∀ b ∈ bs, Text.isBlank b = true) → P bs)
    (token : ∀ bs rest t, (∀ b ∈ bs, Text.isBlank b = true) → EndsBefore rest t → P rest →
      P (bs ++ (t.text.toList ++ rest)))
    (semicolon : ∀ bs rest, (∀ b ∈ bs, Text.isBlank b = true) → P (bs ++ ';' :: rest))
    (cs : List Char) : P cs := by
  rcases layout_cases cs with hbs | ⟨bs, rest, t, hbs, hends, hcs⟩ | ⟨bs, rest, hbs, rfl⟩
  · exact blanks cs hbs
  · rw [hcs]
    exact token bs rest t hbs hends (layout_induction blanks token semicolon rest)
  · exact semicolon bs rest hbs
termination_by cs.length
decreasing_by
  rw [hcs]
  exact length_rest_lt hends

section Matching

variable (hbs : ∀ b ∈ bs, Text.isBlank b = true)
include hbs

/-- Giving back blanks does not help. -/
theorem tokenBehind?_eq_none {k : ℕ} (h : k < bs.length) : tokenBehind? (bs ++ cs) k = none := by
  have hhere : ∀ j < bs.length, tokenHere? ((bs ++ cs).drop j) = none := by
    intro j hj
    rw [List.drop_append_of_le_length hj.le, List.drop_eq_getElem_cons hj, List.cons_append]
    exact tokenHere?_cons_eq_none.mpr (.inl (hbs _ (List.getElem_mem hj)))
  induction k with
  | zero => exact hhere 0 h
  | succ k ih => rw [tokenBehind?, hhere _ h, ih (by omega), Option.or_none]

theorem tokenBehind?_append : tokenBehind? (bs ++ cs) bs.length = tokenHere? cs := by
  rcases hlen : bs.length with _ | k
  · obtain rfl := List.length_eq_zero_iff.mp hlen
    rfl
  · rw [tokenBehind?, ← hlen, List.drop_left, tokenBehind?_eq_none hbs (by omega), Option.or_none]

variable (hcs : ∀ c ∈ cs.head?, Text.isBlank c = false)
include hcs

theorem matchToken?_append : matchToken? (bs ++ cs) = tokenHere? cs := by
  rw [matchToken?, (span_append hbs hcs).1, tokenBehind?_append hbs]

end Matching

theorem scan_append_left (hbs : ∀ b ∈ bs, Text.isBlank b = true) (cs : List Char) :
    scan [] (bs ++ cs) = scan [] cs := by
  induction bs with
  | nil => rfl
  | cons b bs ih =>
    rw [List.forall_mem_cons] at hbs
    rw [List.cons_append, scan_nil_blank hbs.1, ih hbs.2]

theorem scan_token (h : t.EndsBefore rest) :
    scan [] (t.text.toList ++ rest) = (scan [] rest).map (t :: ·) := by
  cases t with
  | opening => exact scan_opening
  | closing => exact scan_closing
  | word w =>
    obtain ⟨hw, hrest⟩ := h
    rcases rest with _ | ⟨c, rest⟩
    · rw [List.append_nil]
      exact scan_word_end hw
    · exact scan_word hw (hrest c rfl) rest

theorem scan_semicolon (cs : List Char) :
    scan [] (';' :: cs) = .error (.unexpectedCharacter ';') := by
  rw [scan, if_pos rfl]

theorem scan_of_laid (h : Laid ts cs) : scan [] cs = .ok ts := by
  induction h with
  | nil hbs => exact scan_blanks hbs []
  | cons hbs hends _ ih =>
    rw [scan_append_left hbs, scan_token hends, ih]
    rfl

theorem laid_of_scan (h : scan [] cs = .ok ts) : Laid ts cs := by
  induction cs using layout_induction generalizing ts with
  | blanks bs hbs =>
    rw [scan_blanks hbs] at h
    obtain rfl := Except.ok.inj h
    exact .nil hbs
  | token bs rest t hbs hends ih =>
    rw [scan_append_left hbs, scan_token hends] at h
    obtain ⟨us, hus, rfl⟩ := map_eq_ok_iff.mp h
    exact .cons hbs hends (ih hus)
  | semicolon bs rest hbs =>
    rw [scan_append_left hbs, scan_semicolon] at h
    simp at h

theorem scan_eq_ok_iff : scan [] cs = .ok ts ↔ Laid ts cs :=
  ⟨laid_of_scan, scan_of_laid⟩

/-- A semicolon is the only thing that keeps a text from being cut. -/
theorem scan_eq_error {e : ReadError} (h : scan [] cs = .error e) :
    e = .unexpectedCharacter ';' := by
  induction cs using layout_induction with
  | blanks bs hbs =>
    rw [scan_blanks hbs] at h
    simp at h
  | token bs rest t hbs hends ih =>
    rw [scan_append_left hbs, scan_token hends] at h
    rcases hrest : scan [] rest with e' | us
    · rw [hrest] at h
      obtain rfl := Except.error.inj h
      exact ih hrest
    · rw [hrest] at h
      simp [Except.map] at h
  | semicolon bs rest hbs =>
    rw [scan_append_left hbs, scan_semicolon] at h
    exact (Except.error.inj h).symm

/-- Without blanks at the end of the text, every match but a refused one finds a token. -/
theorem tokensFrom_eq (hlast : ∀ c ∈ cs.getLast?, Text.isBlank c = false) :
    tokensFrom cs = (scan [] cs).mapError fun _ => some ';' := by
  induction cs using layout_induction with
  | blanks bs hbs =>
    rcases List.eq_nil_or_concat' bs with rfl | ⟨bs, b, rfl⟩
    · rw [tokensFrom]
      rfl
    · have hblank := hbs b (by simp)
      rw [hlast b (by simp)] at hblank
      exact absurd hblank Bool.false_ne_true
  | token bs rest t hbs hends ih =>
    have hrest : ∀ c ∈ rest.getLast?, Text.isBlank c = false := by
      intro c hc
      rw [Option.mem_def] at hc
      exact hlast c (by simp [List.getLast?_append, hc])
    have hne : (bs ++ (t.text.toList ++ rest)).isEmpty = false := by simp [hends.text_ne_nil]
    rw [tokensFrom, hne, matchToken?_append hbs hends.not_isBlank_head, tokenHere?_append hends,
      scan_append_left hbs, scan_token hends]
    simp only [Bool.false_eq_true, if_false, if_pos (length_rest_lt hends)]
    rw [ih hrest]
    cases scan [] rest <;> rfl
  | semicolon bs rest hbs =>
    have hhead : ∀ c ∈ (';' :: rest).head?, Text.isBlank c = false := by
      simp only [List.head?_cons, Option.mem_some_iff, forall_eq']
      decide
    have hmatch : matchToken? (bs ++ ';' :: rest) = none := matchToken?_append hbs hhead
    have hne : (bs ++ ';' :: rest).isEmpty = false := by simp
    rw [tokensFrom, hne, hmatch, Text.trimStart, (span_append hbs hhead).2, scan_append_left hbs,
      scan_semicolon]
    rfl

namespace EndsBefore

theorem of_append {after : List Char} (h : t.EndsBefore (rest ++ after)) : t.EndsBefore rest := by
  cases t with
  | opening => trivial
  | closing => trivial
  | word w => exact ⟨h.1, fun c hc => h.2 c (List.mem_head?_append_of_mem_head? hc)⟩

/-- What stands right in front of a word is no word. -/
theorem not_isLetter_getLast {w : String} (hw : IsWord w) (h : t.EndsBefore (w.toList ++ rest)) :
    ∀ c ∈ t.text.toList.getLast?, isLetter c = false := by
  cases t with
  | opening =>
    rintro _ ⟨⟩
    decide
  | closing =>
    rintro _ ⟨⟩
    decide
  | word v => exact (hw.false_of_head h.2).elim

end EndsBefore

namespace Laid

theorem append_left (hbs : ∀ b ∈ bs, Text.isBlank b = true) (h : Laid ts cs) :
    Laid ts (bs ++ cs) := by
  cases h with
  | nil hcs => exact .nil (List.forall_mem_append.mpr ⟨hbs, hcs⟩)
  | cons hblanks hends hrest =>
    rw [← List.append_assoc]
    exact .cons (List.forall_mem_append.mpr ⟨hbs, hblanks⟩) hends hrest

theorem flatMap_text (h : Laid ts cs) :
    ts.flatMap (·.text.toList) = cs.filter (!Text.isBlank ·) := by
  have hdrop : ∀ {bs : List Char}, (∀ b ∈ bs, Text.isBlank b = true) →
      bs.filter (!Text.isBlank ·) = [] := fun hbs => by simpa using hbs
  induction h with
  | nil hbs => rw [hdrop hbs, List.flatMap_nil]
  | @cons bs rest t ts hbs hends _ ih =>
    have hkeep : t.text.toList.filter (!Text.isBlank ·) = t.text.toList :=
      List.filter_eq_self.mpr fun c hc => by rw [hends.not_isBlank c hc, Bool.not_false]
    rw [List.flatMap_cons, ih, List.filter_append, hdrop hbs, List.nil_append, List.filter_append,
      hkeep]

theorem isWord_of_mem {w : String} (h : Laid ts cs) (hw : .word w ∈ ts) : IsWord w :=
  isWord_of_mem_scan cs [] ts (scan_of_laid h) (by simp) hw

/-- A word stands between no letters, and what is before and behind it is cut by itself. -/
theorem exists_around_word {w : String} {vs : List Token} (h : Laid (us ++ .word w :: vs) cs) :
    ∃ before after, cs = before ++ (w.toList ++ after) ∧ Laid us before ∧ Laid vs after
      ∧ (∀ c ∈ before.getLast?, isLetter c = false) ∧ ∀ c ∈ after.head?, isLetter c = false := by
  have hword := h.isWord_of_mem (List.mem_append_right us List.mem_cons_self)
  induction us generalizing cs with
  | nil =>
    cases h with
    | @cons bs rest _ _ hbs hends hrest =>
      refine ⟨bs, rest, rfl, .nil hbs, hrest, fun c hc => ?_, hends.2⟩
      exact not_isLetter_of_isBlank (hbs c (List.mem_of_getLast? hc))
  | cons t us ih =>
    cases h with
    | @cons bs rest _ _ hbs hends hrest =>
      obtain ⟨before, after, rfl, hus, hvs, hlast, hhead⟩ := ih hrest
      refine ⟨bs ++ (t.text.toList ++ before), after, by simp, .cons hbs hends.of_append hus, hvs,
        ?_, hhead⟩
      intro c hc
      rw [List.getLast?_append_of_ne_nil _ (by simp [hends.text_ne_nil])] at hc
      rcases List.eq_nil_or_concat' before with rfl | ⟨before, d, rfl⟩
      · rw [List.append_nil] at hc
        exact hends.not_isLetter_getLast hword c hc
      · rw [← List.append_assoc, List.getLast?_concat] at hc
        exact hlast c (by simpa using hc)

/-- Blanks lie between a word and the one behind it. -/
theorem exists_between_words {v w : String} {vs : List Token}
    (h : Laid (us ++ .word v :: .word w :: vs) cs) :
    ∃ before bs after, cs = before ++ (v.toList ++ (bs ++ (w.toList ++ after))) ∧ Laid us before
      ∧ Laid vs after ∧ bs ≠ [] ∧ ∀ b ∈ bs, Text.isBlank b = true := by
  obtain ⟨before, behind, rfl, hus, hbehind, -, hhead⟩ := h.exists_around_word
  cases hbehind with
  | @cons bs after _ _ hbs hends hvs =>
    refine ⟨before, bs, after, rfl, hus, hvs, ?_, hbs⟩
    rintro rfl
    exact hends.1.false_of_head hhead

end Laid

theorem endsBefore_of_head (ht : ∀ w, t = .word w → IsWord w)
    (hrest : ∀ c ∈ rest.head?, isLetter c = false) : t.EndsBefore rest := by
  cases t with
  | opening => trivial
  | closing => trivial
  | word w => exact ⟨ht w rfl, hrest⟩

/-- Tokens that are set apart by spaces lie as they are. -/
theorem laid_intercalate : ∀ {ts : List Token}, (∀ w, .word w ∈ ts → IsWord w) →
    Laid ts (" ".intercalate (ts.map text)).toList
  | [], _ => .nil (by simp)
  | [t], h => by
    have hends : t.EndsBefore [] := endsBefore_of_head (fun w hw => h w (by simp [hw])) (by simp)
    have hlaid : Laid [t] ([] ++ (t.text.toList ++ [])) := .cons (by simp) hends (.nil (by simp))
    simpa using hlaid
  | t :: u :: ts, h => by
    have hends : t.EndsBefore (' ' :: (" ".intercalate ((u :: ts).map text)).toList) :=
      endsBefore_of_head (fun w hw => h w (by simp [hw])) (by simp; decide)
    have hrest : Laid (u :: ts) ([' '] ++ (" ".intercalate ((u :: ts).map text)).toList) :=
      (laid_intercalate fun w hw => h w (List.mem_cons_of_mem _ hw)).append_left
        (List.forall_mem_singleton.mpr (by decide))
    have hlaid : Laid (t :: u :: ts) ([] ++ (t.text.toList ++ _)) := .cons (by simp) hends hrest
    simpa [String.toList_intercalate, List.intercalate_cons_cons] using hlaid

end Token

/-- The text cut into tokens of which none could be longer. -/
structure MaximalMunch (s : String) (ts : List Token) : Prop where
  /-- Nothing but the blanks is left out. -/
  joined : String.join (ts.map Token.text) = .ofList (s.toList.filter (!Text.isBlank ·))
  cases : ∀ t ∈ ts, t = .opening ∨ t = .closing ∨ ∃ w, t = .word w ∧ IsWord w
  /-- No word goes on to either side. -/
  around : ∀ us w vs, ts = us ++ .word w :: vs → ∃ before after : String,
    s = before ++ w ++ after ∧ tokenize before = .ok us ∧ tokenize after = .ok vs
      ∧ (∀ c ∈ before.toList.getLast?, isLetter c = false)
      ∧ ∀ c ∈ after.toList.head?, isLetter c = false
  /-- A word ends in front of another word only where blanks are. -/
  between : ∀ us v w vs, ts = us ++ .word v :: .word w :: vs → ∃ before blanks after : String,
    s = before ++ v ++ blanks ++ w ++ after ∧ tokenize before = .ok us ∧ tokenize after = .ok vs
      ∧ blanks ≠ "" ∧ ∀ b ∈ blanks.toList, Text.isBlank b = true

section Cut

variable {s : String} {ts : List Token}

theorem tokenize_eq_ok_iff : tokenize s = .ok ts ↔ Token.Laid ts s.toList :=
  Token.scan_eq_ok_iff

theorem tokenize_eq_error_iff :
    tokenize s = .error (.unexpectedCharacter ';') ↔ ';' ∈ s.toList := by
  rw [← not_iff_not, ← exists_tokenize_eq_ok_iff]
  rcases hs : tokenize s with e | ts
  · have he := Token.scan_eq_error hs
    simp [he]
  · simp

theorem maximalMunch_of_tokenize (h : tokenize s = .ok ts) : MaximalMunch s ts := by
  rw [tokenize_eq_ok_iff] at h
  constructor
  case joined =>
    rw [← h.flatMap_text]
    apply String.toList_injective
    simp [String.toList_join, List.flatMap_map]
  case cases =>
    intro t ht
    cases t with
    | opening => exact .inl rfl
    | closing => exact .inr (.inl rfl)
    | word w => exact .inr (.inr ⟨w, rfl, h.isWord_of_mem ht⟩)
  case around =>
    rintro us w vs rfl
    obtain ⟨before, after, hs, hus, hvs, hlast, hhead⟩ := h.exists_around_word
    refine ⟨.ofList before, .ofList after, ?_, ?_, ?_, ?_, ?_⟩
    · apply String.toList_injective
      simp [hs]
    all_goals simpa [tokenize_eq_ok_iff]
  case between =>
    rintro us v w vs rfl
    obtain ⟨before, bs, after, hs, hus, hvs, hne, hbs⟩ := h.exists_between_words
    refine ⟨.ofList before, .ofList bs, .ofList after, ?_, ?_, ?_, ?_, ?_⟩
    · apply String.toList_injective
      simp [hs]
    all_goals simpa [tokenize_eq_ok_iff]

theorem tokenize_intercalate (h : tokenize s = .ok ts) :
    tokenize (" ".intercalate (ts.map Token.text)) = .ok ts :=
  tokenize_eq_ok_iff.mpr (Token.laid_intercalate fun _ hw => isWord_of_mem_tokenize h hw)

end Cut

theorem tokenizeByMatching_eq (s : String) :
    tokenizeByMatching s = (tokenize s).mapError fun _ => some ';' := by
  have hlast : ∀ c ∈ (Text.trimEnd s.toList).getLast?, Text.isBlank c = false := by
    intro c hc
    have hstop := List.head?_dropWhile_not Text.isBlank s.toList.reverse
    rw [Text.trimEnd, List.getLast?_reverse] at hc
    rw [Option.mem_def.mp hc] at hstop
    simpa using hstop
  rw [tokenizeByMatching, Token.tokensFrom_eq hlast, Token.scan_trimEnd, tokenize]

/-- A text is refused iff it holds a semicolon. Any other is cut into tokens that are as long as
the text allows and come back when the text is made of them anew, and matching the pattern again
and again finds the same ones. -/
theorem tokenize_maximalMunch (s : String) :
    (tokenize s = .error (.unexpectedCharacter ';') ↔ ';' ∈ s.toList)
      ∧ (';' ∉ s.toList → ∃ ts, tokenize s = .ok ts ∧ MaximalMunch s ts
        ∧ tokenize (" ".intercalate (ts.map Token.text)) = .ok ts)
      ∧ tokenizeByMatching s = (tokenize s).mapError fun _ => some ';' := by
  refine ⟨tokenize_eq_error_iff, fun hs => ?_, tokenizeByMatching_eq s⟩
  obtain ⟨ts, hts⟩ := exists_tokenize_eq_ok_iff.mpr hs
  exact ⟨ts, hts, maximalMunch_of_tokenize hts, tokenize_intercalate hts⟩

/-- Blanks of several kinds, and words right beside parentheses. -/
theorem tokenize_maximalMunch_unicode :
    ';' ∉ "\u2003(é\u00a0q(not  p))-a\u3000".toList
      ∧ ∃ ts, tokenize "\u2003(é\u00a0q(not  p))-a\u3000" = .ok ts
        ∧ MaximalMunch "\u2003(é\u00a0q(not  p))-a\u3000" ts
        ∧ tokenize (" ".intercalate (ts.map Token.text)) = .ok ts
        ∧ ts = [.opening, .word "é", .word "q", .opening, .word "not", .word "p", .closing,
          .closing, .word "-a"] := by
  have hs : ';' ∉ "\u2003(é\u00a0q(not  p))-a\u3000".toList := by decide
  obtain ⟨ts, hts, hmunch, hagain⟩ :=
    (tokenize_maximalMunch "\u2003(é\u00a0q(not  p))-a\u3000").2.1 hs
  refine ⟨hs, ts, hts, hmunch, hagain, (Except.ok.inj (hts.symm.trans ?_))⟩
  decide

end Resolution
