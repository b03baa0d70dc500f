import Mathlib.Order.Bounds.Basic
import Resolution.KnowledgeBase.Content
import Resolution.Proofs.RejectedLines
import Resolution.Proofs.Utf8

/-!
# Files read line by line

A file is cut into lines before it is decoded. No byte of a character but the line feed is 0x0A
(`newline_not_mem_encodeChar`), so the lines of well-formed content are those of its text, also
when a byte order mark stands in front, and reading the file is reading its text
(`ofBytes_encode`).

Of lines that are refused, the first is the error, be it damaged or no clause: reading a line does
not depend on the others (`readLines_cons_cases`). If none is refused, each of them is well formed,
and so is the content. What is reported of a load follows, as the lines are all read before anything
is reported (`Reporting.outcome_load_of_error`).
-/

namespace Resolution

open String (utf8EncodeChar)

namespace Utf8

def WellFormed (bytes : List UInt8) : Prop :=
  ∃ s, encode s = bytes

section Mark

variable {cs : List Char} {bytes : List UInt8}

theorem encode_ofList (cs : List Char) : encode (.ofList cs) = cs.flatMap utf8EncodeChar := by
  rw [encode_eq, String.toList_ofList]

theorem encode_inj {s t : String} : encode s = encode t ↔ s = t := by
  constructor
  · intro h
    have hs : decode (encode t) = .ok s := decode_eq_ok_iff.2 h
    rw [decode_eq_ok_iff.2 rfl] at hs
    exact (Except.ok.inj hs).symm
  · exact congrArg encode

theorem byteOrderMark_eq : byteOrderMark = utf8EncodeChar '\uFEFF' := by
  decide

theorem dropMark_append (bytes : List UInt8) : dropMark (byteOrderMark ++ bytes) = bytes := by
  rw [dropMark, if_pos (List.isPrefixOf_iff_prefix.2 (List.prefix_append _ _)), List.drop_left]

theorem exists_cons_of_mark (h : byteOrderMark.isPrefixOf (cs.flatMap utf8EncodeChar)) :
    ∃ cs', cs = '\uFEFF' :: cs' := by
  obtain ⟨rest, hrest⟩ := List.isPrefixOf_iff_prefix.1 h
  have hpieces : pieces (byteOrderMark ++ rest) = .char '\uFEFF' :: pieces rest := rfl
  rw [pieces_eq_map_iff.2 hrest.symm] at hpieces
  obtain ⟨c, cs', rfl, hc, -⟩ := List.map_eq_cons_iff.1 hpieces
  cases hc
  exact ⟨cs', rfl⟩

theorem dropMark_encode (cs : List Char) :
    dropMark (cs.flatMap utf8EncodeChar) = (dropTextMark cs).flatMap utf8EncodeChar := by
  unfold dropTextMark
  split
  · rw [List.flatMap_cons, ← byteOrderMark_eq, dropMark_append]
  · rename_i hcs
    refine if_neg fun h => ?_
    obtain ⟨cs', rfl⟩ := exists_cons_of_mark h
    exact hcs cs' rfl

theorem wellFormed_dropMark_iff : WellFormed (dropMark bytes) ↔ WellFormed bytes := by
  constructor
  · intro h
    by_cases hmark : byteOrderMark.isPrefixOf bytes
    · obtain ⟨rest, rfl⟩ := List.isPrefixOf_iff_prefix.1 hmark
      rw [dropMark_append] at h
      obtain ⟨s, rfl⟩ := h
      refine ⟨.ofList ('\uFEFF' :: s.toList), ?_⟩
      rw [encode_ofList, List.flatMap_cons, ← byteOrderMark_eq, encode_eq]
    · rwa [dropMark, if_neg hmark] at h
  · rintro ⟨s, rfl⟩
    rw [encode_eq, dropMark_encode]
    exact ⟨_, encode_ofList _⟩

theorem wellFormed_flatten {parts : List (List UInt8)} (h : ∀ part ∈ parts, WellFormed part) :
    WellFormed parts.flatten := by
  induction parts with
  | nil => exact ⟨"", rfl⟩
  | cons part parts ih =>
    obtain ⟨s, rfl⟩ := h part List.mem_cons_self
    obtain ⟨t, ht⟩ := ih fun part hpart => h part (List.mem_cons_of_mem _ hpart)
    refine ⟨s ++ t, ?_⟩
    rw [List.flatten_cons, ← ht, encode_eq, encode_eq, encode_eq, String.toList_append,
      List.flatMap_append]

end Mark

section Newline

theorem le_of_mem_continuation {b : UInt8} {n : ℕ} : ∀ {count : ℕ},
    b ∈ continuation count n → 0x80 ≤ b.toNat
  | count + 1, hb => by
    rw [continuation, List.mem_cons] at hb
    rcases hb with rfl | hb
    · rw [UInt8.toNat_ofNat']
      omega
    · exact le_of_mem_continuation hb

theorem newline_not_mem_encodeChar {c : Char} (hc : c ≠ '\n') : 0x0A ∉ utf8EncodeChar c := by
  have hvalid := toNat_cases c
  have hlead {m : ℕ} (hm : m < 256) (h : 0x0A = UInt8.ofNat m) : m = 10 :=
    ((ofNat_eq_iff hm).1 h.symm).symm
  have hrest {count n : ℕ} (h : 0x0A ∈ continuation count n) : False :=
    absurd (le_of_mem_continuation h) (by decide)
  rw [encodeChar_eq]
  intro h
  split_ifs at h <;> rcases List.mem_cons.1 h with h | h
  · exact hc (Char.toNat_inj.1 (hlead (by omega) h))
  · cases h
  · exact absurd (hlead (by omega) h) (by omega)
  · exact hrest h
  · exact absurd (hlead (by omega) h) (by omega)
  · exact hrest h
  · exact absurd (hlead (by omega) h) (by omega)
  · exact hrest h

theorem splitAfter_encode (cs : List Char) :
    Text.splitAfter 0x0A (cs.flatMap utf8EncodeChar)
      = (Text.splitAfter '\n' cs).map (List.flatMap utf8EncodeChar) :=
  Text.splitAfter_flatMap (by decide) (fun _ hc =>
    ⟨String.utf8EncodeChar_ne_nil, newline_not_mem_encodeChar hc⟩) cs

end Newline

end Utf8

section Lines

theorem ofBytes_line_encode (first : Bool) (cs : List Char) :
    Line.ofBytes first (cs.flatMap utf8EncodeChar)
      = .text (.ofList (if first then dropTextMark cs else cs)) := by
  have hdecode (ds : List Char) : Utf8.decode (ds.flatMap utf8EncodeChar) = .ok (.ofList ds) :=
    Utf8.decode_eq_ok_iff.2 (Utf8.encode_ofList ds)
  cases first
  · simp [Line.ofBytes, hdecode]
  · simp [Line.ofBytes, Utf8.dropMark_encode, hdecode]

theorem ofBytes_encode (s : String) :
    Reading.ofBytes (Utf8.encode s) = Reading.ofLines (linesOfText s) := by
  rw [Reading.ofBytes, linesOfBytes, Utf8.encode_eq, Utf8.splitAfter_encode, linesOfText]
  rcases s.toList with _ | ⟨c, cs⟩
  · rfl
  · by_cases hc : c = '\uFEFF'
    · subst hc
      rw [Text.splitAfter_cons_of_ne (by decide), dropTextMark]
      rcases Text.splitAfter '\n' cs with _ | ⟨first, rest⟩
      -- a mark alone is a blank line of the file and no line of the text
      · rfl
      · simp only [Text.joinFirst, List.map_cons, List.map_map, Function.comp_def,
          ofBytes_line_encode]
        rfl
    · have hmark (ds : List Char) : dropTextMark (c :: ds) = c :: ds := by
        simp [dropTextMark, hc]
      obtain ⟨first, rest, hsplit⟩ := Text.exists_splitAfter_cons '\n' c cs
      simp only [hmark, hsplit, List.map_cons, List.map_map, Function.comp_def,
        ofBytes_line_encode, if_true]
      rfl

end Lines

section FirstFault

def Line.Refused (l : Line) : Prop :=
  ∃ e, Reading.ofLines [l] = .error e

theorem readLines_cons_cases (l : Line) :
    (l.Refused ∧ ∀ number ls, ∃ e, readLines number (l :: ls) = .error e ∧ e.number = number)
      ∨ (¬ l.Refused ∧ ∃ cs, ∀ number ls,
          readLines number (l :: ls) = (readLines (number + 1) ls).map (cs ++ ·)) := by
  cases l with
  | damaged offset shown => exact .inl ⟨⟨_, rfl⟩, fun _ _ => ⟨_, rfl, rfl⟩⟩
  | text s =>
    by_cases hactive : Active s
    · rcases hread : Clause.read s with e | c
      · have herror := readLines_of_read_error hactive hread
        exact .inl ⟨⟨_, congrArg (Except.map _) (herror 1 [])⟩,
          fun number ls => ⟨_, herror number ls, rfl⟩⟩
      · refine .inr ⟨?_, [c], readLines_of_read_ok hactive hread⟩
        rintro ⟨e, he⟩
        rw [Reading.ofLines, readLines_of_read_ok hactive hread] at he
        cases he
    · refine .inr ⟨?_, [], fun number ls => ?_⟩
      · rintro ⟨e, he⟩
        rw [Reading.ofLines, readLines_of_not_active hactive] at he
        cases he
      · rw [readLines_of_not_active hactive]
        cases readLines (number + 1) ls <;> rfl

theorem readLines_cases : ∀ (number : ℕ) (ls : List Line),
    ((∃ cs, readLines number ls = .ok cs) ∧ ∀ l ∈ ls, ¬ l.Refused)
      ∨ ∃ e front l back, readLines number ls = .error e ∧ ls = front ++ l :: back
          ∧ e.number = number + front.length ∧ l.Refused ∧ ∀ m ∈ front, ¬ m.Refused
  | number, [] => .inl ⟨⟨[], rfl⟩, by simp⟩
  | number, l :: ls => by
    rcases readLines_cons_cases l with ⟨hl, herror⟩ | ⟨hl, cs, hread⟩
    · obtain ⟨e, he, hnumber⟩ := herror number ls
      exact .inr ⟨e, [], l, ls, he, rfl, hnumber, hl, by simp⟩
    · rcases readLines_cases (number + 1) ls with
        ⟨⟨ds, hds⟩, hls⟩ | ⟨e, front, m, back, he, rfl, hnumber, hm, hfront⟩
      · exact .inl ⟨⟨cs ++ ds, by rw [hread, hds]; rfl⟩, List.forall_mem_cons.2 ⟨hl, hls⟩⟩
      · refine .inr ⟨e, l :: front, m, back, by rw [hread, he]; rfl, rfl, ?_, hm,
          List.forall_mem_cons.2 ⟨hl, hfront⟩⟩
        rw [hnumber, List.length_cons]
        omega

end FirstFault

section Files

variable {bytes raw : List UInt8}

/-- The bytes of a line are no text, or that of a line that is refused. -/
def RefusedBytes (first : Bool) (raw : List UInt8) : Prop :=
  ¬ Utf8.WellFormed raw
    ∨ ∃ s, Utf8.encode s = (if first then Utf8.dropMark raw else raw) ∧ (Line.text s).Refused

def refusedNumbers (bytes : List UInt8) : Set ℕ :=
  {n | ∃ i raw, (Text.splitAfter 0x0A bytes)[i]? = some raw ∧ n = i + 1
    ∧ RefusedBytes (i = 0) raw}

theorem refused_ofBytes_iff (first : Bool) :
    (Line.ofBytes first raw).Refused ↔ RefusedBytes first raw := by
  have hformed : Utf8.WellFormed (if first then Utf8.dropMark raw else raw)
      ↔ Utf8.WellFormed raw := by
    split_ifs
    · exact Utf8.wellFormed_dropMark_iff
    · exact Iff.rfl
  rw [RefusedBytes, ← hformed, Line.ofBytes]
  rcases hdecode : Utf8.decode (if first then Utf8.dropMark raw else raw) with offset | s
  · have hdamaged : ¬ Utf8.WellFormed (if first then Utf8.dropMark raw else raw) := by
      rintro ⟨s, hs⟩
      rw [← Utf8.decode_eq_ok_iff, hdecode] at hs
      cases hs
    exact iff_of_true ⟨_, rfl⟩ (.inl hdamaged)
  · rw [Utf8.decode_eq_ok_iff] at hdecode
    rw [← hdecode, or_iff_right (not_not_intro ⟨s, rfl⟩)]
    simp only [Utf8.encode_inj, exists_eq_left]

theorem getElem?_linesOfBytes (bytes : List UInt8) (i : ℕ) :
    (linesOfBytes bytes)[i]? = (Text.splitAfter 0x0A bytes)[i]?.map (Line.ofBytes (i = 0)) := by
  unfold linesOfBytes
  rcases Text.splitAfter 0x0A bytes with _ | ⟨raw, raws⟩
  · rfl
  · cases i <;> simp

theorem mem_refusedNumbers {n : ℕ} : n ∈ refusedNumbers bytes ↔
    ∃ i l, (linesOfBytes bytes)[i]? = some l ∧ n = i + 1 ∧ l.Refused := by
  simp only [getElem?_linesOfBytes, Option.map_eq_some_iff]
  constructor
  · rintro ⟨i, raw, hraw, rfl, hrefused⟩
    exact ⟨i, _, ⟨raw, hraw, rfl⟩, rfl, (refused_ofBytes_iff _).2 hrefused⟩
  · rintro ⟨i, _, ⟨raw, hraw, rfl⟩, rfl, hrefused⟩
    exact ⟨i, raw, hraw, rfl, (refused_ofBytes_iff _).1 hrefused⟩

theorem wellFormed_of_forall_not_refused (h : ∀ l ∈ linesOfBytes bytes, ¬ l.Refused) :
    Utf8.WellFormed bytes := by
  rw [← Text.flatten_splitAfter (x := 0x0A) bytes]
  refine Utf8.wellFormed_flatten fun raw hraw => ?_
  obtain ⟨i, hi⟩ := List.mem_iff_getElem?.1 hraw
  have hline : (linesOfBytes bytes)[i]? = some (Line.ofBytes (i = 0) raw) := by
    rw [getElem?_linesOfBytes, hi]
    rfl
  by_contra hdamaged
  exact h _ (List.mem_of_getElem? hline) ((refused_ofBytes_iff _).2 (.inl hdamaged))

/-- Reading fails at the first line that is refused. If there is none, the content is read as its
text is. -/
theorem ofBytes_cases (bytes : List UInt8) :
    (∃ e, Reading.ofBytes bytes = .error e ∧ IsLeast (refusedNumbers bytes) e.number)
      ∨ ¬ (refusedNumbers bytes).Nonempty ∧ ∃ s reading, Utf8.encode s = bytes
          ∧ Reading.ofBytes bytes = .ok reading ∧ Reading.ofLines (linesOfText s) = .ok reading := by
  rcases readLines_cases 1 (linesOfBytes bytes) with
    ⟨⟨cs, hread⟩, hnone⟩ | ⟨e, front, l, back, hread, hlines, hnumber, hl, hfront⟩
  · have hok : Reading.ofBytes bytes = .ok ⟨cs.length, .ofList cs⟩ := by
      rw [Reading.ofBytes, Reading.ofLines, hread]
      rfl
    obtain ⟨s, rfl⟩ := wellFormed_of_forall_not_refused hnone
    refine .inr ⟨?_, s, _, rfl, hok, by rw [← ofBytes_encode, hok]⟩
    rintro ⟨n, hn⟩
    obtain ⟨i, l, hi, -, hrefused⟩ := mem_refusedNumbers.1 hn
    exact hnone l (List.mem_of_getElem? hi) hrefused
  · have herror : Reading.ofBytes bytes = .error e := by
      rw [Reading.ofBytes, Reading.ofLines, hread]
      rfl
    have hmem : e.number ∈ refusedNumbers bytes :=
      mem_refusedNumbers.2 ⟨front.length, l, by simp [hlines], by omega, hl⟩
    refine .inl ⟨e, herror, hmem, fun n hn => ?_⟩
    obtain ⟨i, m, hi, rfl, hm⟩ := mem_refusedNumbers.1 hn
    by_contra hlt
    rw [hlines, List.getElem?_append_left (by omega)] at hi
    exact hfront m (List.mem_of_getElem? hi) hm

/-- Loading a file fails exactly if some line is refused. The error is then that of the first such
line, and nothing has been reported. Otherwise the knowledge base and what is reported are the same
as those of the lines of the text that the file holds. -/
theorem load_linesOfBytes (bytes : List UInt8) :
    let outcome := (Reporting.load (linesOfBytes bytes)).outcome
    ((∃ e, outcome.1 = .error e) ↔ (refusedNumbers bytes).Nonempty)
      ∧ ((∃ e, outcome = (.error e, []) ∧ Reading.ofBytes bytes = .error e
          ∧ IsLeast (refusedNumbers bytes) e.number)
        ∨ ∃ s reading, Utf8.encode s = bytes
          ∧ outcome = (.ok reading.kb.clauses, reading.kb.dropped)
          ∧ (Reporting.load (linesOfText s)).outcome = outcome
          ∧ Reading.ofBytes bytes = .ok reading ∧ Reading.ofLines (linesOfText s) = .ok reading) := by
  intro outcome
  rcases ofBytes_cases bytes with ⟨e, herror, hleast⟩ | ⟨hnone, s, reading, hs, hok, htext⟩
  · have houtcome : outcome = (.error e, []) := Reporting.outcome_load_of_error herror
    exact ⟨iff_of_true ⟨e, by rw [houtcome]⟩ hleast.nonempty, .inl ⟨e, houtcome, herror, hleast⟩⟩
  · have houtcome : outcome = (.ok reading.kb.clauses, reading.kb.dropped) :=
      Reporting.outcome_load_of_ok hok
    refine ⟨iff_of_false ?_ hnone, .inr ⟨s, reading, hs, houtcome, ?_, hok, htext⟩⟩
    · rintro ⟨e, he⟩
      rw [houtcome] at he
      cases he
    · rw [houtcome, Reporting.outcome_load_of_ok htext]

end Files

end Resolution
