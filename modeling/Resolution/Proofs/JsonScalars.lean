import Mathlib.Tactic
import Resolution.Json.Printer
import Resolution.Json.Reader

/-!
# Strings and integers in documents

A string is read back as it was written, whatever its characters are. The writer gives each
character a letter, its own or one behind a backslash, or else its UTF-16 units, and a character
outside the first 65536 code points has two of them. Neither of the two is a character alone, so
the reader holds back the first until it has the second (`readPoints_pair`), and a unit that is a
character is never held back (`readPoints_unitEscape`). Each of these lemmas puts one character in
front of a text that is known to be read.

An integer is read back from its numeral if no digit, point or exponent follows it, as nothing
that ends a value does (`Ends`). A numeral begins with a zero only if it is one (`readWhole` would
stop there).
-/

namespace Resolution.Json

section Strings

theorem isHighSurrogate_iff {unit : ℕ} :
    isHighSurrogate unit = true ↔ 0xD800 ≤ unit ∧ unit ≤ 0xDBFF := by
  simp [isHighSurrogate]

theorem isLowSurrogate_iff {unit : ℕ} :
    isLowSurrogate unit = true ↔ 0xDC00 ≤ unit ∧ unit ≤ 0xDFFF := by
  simp [isLowSurrogate]

theorem readUnit_hexDigits {unit : ℕ} (h : unit < 0x10000) : ∃ a b c d,
    Text.hexDigits 4 unit = [a, b, c, d] ∧ readUnit a b c d = some unit := by
  have hvalue (n : ℕ) : Text.hexValue? (Nat.digitChar (n % 16)) = some (n % 16) :=
    Text.hexValue?_digitChar _ (Nat.mod_lt _ (by decide))
  refine ⟨_, _, _, _, rfl, ?_⟩
  simp only [readUnit, hvalue, Option.pure_def, Option.bind_eq_bind, Option.bind_some,
    Option.some.injEq]
  omega

section

variable {c : Char} {cs rest : List Char} {ps : List CodePoint}
  (hcs : readPoints none cs = some (ps, rest))

include hcs

theorem readPoints_unitEscape {unit : ℕ} (h : unit < 0xD800 ∨ 0xDFFF < unit ∧ unit < 0x10000) :
    readPoints none (unitEscape unit ++ cs) = some (.char (Char.ofNat unit) :: ps, rest) := by
  obtain ⟨_, _, _, _, hdigits, hunit⟩ := readUnit_hexDigits (by omega : unit < _)
  have hhigh : ¬ isHighSurrogate unit := by rw [isHighSurrogate_iff]; omega
  have hlow : ¬ isLowSurrogate unit := by rw [isLowSurrogate_iff]; omega
  simp [unitEscape, hdigits, readPoints, hunit, hhigh, hlow, hcs, pointOfUnit]

theorem readPoints_pair {high low : ℕ} (hhigh : isHighSurrogate high)
    (hlow : isLowSurrogate low) :
    readPoints none (unitEscape high ++ (unitEscape low ++ cs))
      = some (.char (charOfPair high low) :: ps, rest) := by
  have hlt : high < 0x10000 ∧ low < 0x10000 := by
    rw [isHighSurrogate_iff] at hhigh
    rw [isLowSurrogate_iff] at hlow
    omega
  obtain ⟨_, _, _, _, hdigits, hunit⟩ := readUnit_hexDigits hlt.1
  obtain ⟨_, _, _, _, hdigits', hunit'⟩ := readUnit_hexDigits hlt.2
  simp [unitEscape, hdigits, hdigits', readPoints, hunit, hunit', hhigh, hlow, hcs]

theorem readPoints_utf16Units :
    readPoints none ((utf16Units c).flatMap unitEscape ++ cs) = some (.char c :: ps, rest) := by
  have hvalid : c.toNat < 0xD800 ∨ 0xDFFF < c.toNat ∧ c.toNat < 0x110000 := c.valid
  by_cases h : c.toNat < 0x10000
  · have hunits : utf16Units c = [c.toNat] := if_pos h
    have hscalar : c.toNat < 0xD800 ∨ 0xDFFF < c.toNat ∧ c.toNat < 0x10000 := by omega
    simpa [hunits] using readPoints_unitEscape hcs hscalar
  · let high := 0xD800 + (c.toNat - 0x10000) / 0x400
    let low := 0xDC00 + (c.toNat - 0x10000) % 0x400
    have hunits : utf16Units c = [high, low] := if_neg h
    have hpair : charOfPair high low = c := by
      rw [charOfPair, show _ + _ = c.toNat by omega, Char.ofNat_toNat]
    have hhigh : isHighSurrogate high := isHighSurrogate_iff.2 (by omega)
    have hlow : isLowSurrogate low := isLowSurrogate_iff.2 (by omega)
    simpa [hunits, hpair] using readPoints_pair hcs hhigh hlow

theorem readPoints_escapeChar :
    readPoints none (escapeChar c ++ cs) = some (.char c :: ps, rest) := by
  unfold escapeChar
  split_ifs with hquote hn hr ht hb hf hplain
  · rcases hquote with rfl | rfl <;> simp [readPoints, shortEscape?, hcs]
  · simp [readPoints, shortEscape?, hcs, hn]
  · simp [readPoints, shortEscape?, hcs, hr]
  · simp [readPoints, shortEscape?, hcs, ht]
  · simp [readPoints, shortEscape?, hcs, hb]
  · simp [readPoints, shortEscape?, hcs, hf]
  · push Not at hquote
    simp [readPoints, hcs, hquote, hplain.1]
  · exact readPoints_utf16Units hcs

end

/-- The characters behind the first quotation mark do not depend on what follows the string. -/
theorem exists_readString (s : String) : ∃ ds, ∀ rest : List Char,
    renderString s ++ rest = '"' :: (ds ++ rest) ∧ readString (ds ++ rest) = .ok (s, rest) := by
  have hread (rest : List Char) : ∀ cs : List Char,
      readPoints none (cs.flatMap escapeChar ++ '"' :: rest) = some (cs.map .char, rest) := by
    intro cs
    induction cs with
    | nil => rfl
    | cons c cs ih => simpa using readPoints_escapeChar ih
  refine ⟨(CodeText.ofString s).points.flatMap escapePoint ++ ['"'], fun rest => ⟨rfl, ?_⟩⟩
  simp [readString, CodeText.ofString, List.flatMap_map, escapePoint, hread]

end Strings

/-- What may follow a value in a document: a comma, a line that closes a list, or nothing. -/
inductive Ends : List Char → Prop
  | nil : Ends []
  | comma (cs : List Char) : Ends (',' :: cs)
  | line (cs : List Char) : Ends ('\n' :: cs)

section Integers

theorem toList_toString (n : ℤ) : (toString n).toList
    = if n < 0 then '-' :: Nat.toDigits 10 n.natAbs else Nat.toDigits 10 n.natAbs := by
  cases n with
  | ofNat m =>
    have h : toString (Int.ofNat m) = .ofList (Nat.toDigits 10 m) := Nat.toString_eq_ofList_toDigits
    rw [h, String.toList_ofList]
    exact (if_neg (Int.natCast_nonneg m).not_gt).symm
  | negSucc m =>
    have h : toString (Int.negSucc m) = "-" ++ .ofList (Nat.toDigits 10 (m + 1)) := rfl
    simp [h, Int.negSucc_lt_zero]

theorem digitsValue_toDigits (m : ℕ) : digitsValue (Nat.toDigits 10 m) = m := by
  have h := Nat.ofDigitChars_ten_toDigits (n := m)
  rw [Nat.ofDigitChars_eq_foldl] at h
  simpa only [digitsValue, Nat.mul_comm] using h

theorem head?_toDigits_ne_zero {m : ℕ} (hm : 0 < m) : (Nat.toDigits 10 m).head? ≠ some '0' := by
  have hdigit : ∀ d < 10, 0 < d → Nat.digitChar d ≠ '0' := by decide
  induction m using Nat.strong_induction_on with
  | _ m ih =>
    rcases Nat.lt_or_ge m 10 with h | h
    · simpa [Nat.toDigits_of_lt_base h] using hdigit m h hm
    · rw [Nat.toDigits_of_base_le (by decide) h, List.head?_append_of_ne_nil _ Nat.toDigits_ne_nil]
      exact ih (m / 10) (by omega) (by omega)

theorem exists_toDigits (m : ℕ) : ∃ d ds, Nat.toDigits 10 m = d :: ds ∧ d.isDigit = true := by
  obtain ⟨d, ds, hds⟩ := List.exists_cons_of_ne_nil (Nat.toDigits_ne_nil (b := 10) (n := m))
  exact ⟨d, ds, hds, Nat.isDigit_of_mem_toDigits (by decide) le_rfl (hds ▸ List.mem_cons_self)⟩

theorem ne_of_isDigit {c d : Char} (hd : d.isDigit = true) (hc : c.isDigit = false) : d ≠ c := by
  rintro rfl
  exact absurd hd (by simp [hc])

variable {rest : List Char} (hrest : Ends rest)

include hrest

theorem readWhole_toDigits (m : ℕ) :
    readWhole (Nat.toDigits 10 m ++ rest) = .ok (Nat.toDigits 10 m, rest) := by
  have hdigits : ∀ c ∈ Nat.toDigits 10 m, c.isDigit = true := fun c hc =>
    Nat.isDigit_of_mem_toDigits (by decide) le_rfl hc
  have htake : rest.takeWhile Char.isDigit = [] := by cases hrest <;> rfl
  have hdrop : rest.dropWhile Char.isDigit = rest := by cases hrest <;> rfl
  unfold readWhole
  simp only [List.takeWhile_append_of_pos hdigits, List.dropWhile_append_of_pos hdigits, htake,
    hdrop, List.append_nil]
  split
  · rename_i h
    exact absurd h Nat.toDigits_ne_nil
  · rename_i more h
    obtain rfl : m = 0 := by
      by_contra hm
      exact head?_toDigits_ne_zero (Nat.pos_of_ne_zero hm) (by rw [h]; rfl)
    obtain rfl : [] = more := (List.cons.inj h).2
    rfl
  · rfl

variable (limit : Option ℕ)

theorem readUnsigned_toDigits (negative : Bool) (m : ℕ) :
    readUnsigned limit negative (Nat.toDigits 10 m ++ rest)
      = (integer limit negative (Nat.toDigits 10 m)).map (·, rest) := by
  have hfraction : readFraction rest = ([], rest) := by cases hrest <;> rfl
  have hexponent : readExponent rest = (none, rest) := by
    cases hrest with
    | nil => rfl
    | comma cs => simp [readExponent]
    | line cs => simp [readExponent]
  simp only [readUnsigned, readWhole_toDigits hrest, hfraction, hexponent, bind, Except.bind]
  rfl

theorem readNumber_toString (n : ℤ) :
    readNumber limit ((toString n).toList ++ rest)
      = (integer limit (n < 0) (Nat.toDigits 10 n.natAbs)).map (·, rest) := by
  obtain ⟨d, ds, hds, hd⟩ := exists_toDigits n.natAbs
  rw [toList_toString, ← readUnsigned_toDigits hrest limit]
  split_ifs with h
  · rw [List.cons_append, hds, List.cons_append, readNumber]
    · simp [h]
    · exact fun _ h => ne_of_isDigit hd rfl (List.cons.inj h).1
  · rw [hds, List.cons_append, readNumber]
    · simp [h]
    all_goals exact fun _ h => ne_of_isDigit hd rfl (List.cons.inj h).1

end Integers

end Resolution.Json
