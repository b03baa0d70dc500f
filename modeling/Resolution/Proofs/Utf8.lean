import Mathlib.Tactic
import Resolution.Text.Utf8

/-!
# What is well-formed

Bytes are decoded as a text exactly if they are its encoding (`decode_eq_ok_iff`), so what is well
formed is what encodes some text.

The first byte of a character says how many follow it, and the ranges of the decoder are those in
which the bytes of a character lie: none of a longer form than it needs, none of a surrogate, none
above U+10FFFF. This is checked once, for the first byte (`encodeChar_eq_cons_iff`). What the bytes
behind it may be is a matter of the bits that are still open (`Pending.Matches`), of which each
byte settles six (`completes_cons_iff`).
-/

namespace Resolution.Utf8

open String (utf8EncodeChar)

/-- The last `count` bytes of the character `n`. -/
def continuation : ℕ → ℕ → List UInt8
  | 0, _ => []
  | count + 1, n => .ofNat (0x80 + n / 64 ^ count % 64) :: continuation count n

def Pending.Matches (p : Pending) (n : ℕ) : Prop :=
  n / 64 ^ (p.more + 1) = p.bits ∧ p.low ≤ 0x80 + n / 64 ^ p.more % 64
    ∧ 0x80 + n / 64 ^ p.more % 64 ≤ p.high

/-- The bytes `t` make `c` of what the decoder has seen. -/
def Completes (c : Char) (t : List UInt8) : Piece ⊕ Pending → Prop
  | .inl piece => piece = .char c ∧ t = []
  | .inr p => p.Matches c.toNat ∧ t = continuation (p.more + 1) c.toNat

structure Pending.Sound (p : Pending) : Prop where
  low : 0x80 ≤ p.low
  high : p.high ≤ 0xBF
  valid : ∀ n, p.Matches n → n.isValidChar

section FirstByte

variable {c : Char} {b : UInt8} {t : List UInt8}

theorem toNat_cases (c : Char) : c.toNat < 0xD800 ∨ 0xDFFF < c.toNat ∧ c.toNat < 0x110000 :=
  c.valid

theorem encodeChar_eq (c : Char) : utf8EncodeChar c =
    if c.toNat < 0x80 then [.ofNat c.toNat]
    else if c.toNat < 0x800 then .ofNat (0xC0 + c.toNat / 64) :: continuation 1 c.toNat
    else if c.toNat < 0x10000 then .ofNat (0xE0 + c.toNat / 64 ^ 2) :: continuation 2 c.toNat
    else .ofNat (0xF0 + c.toNat / 64 ^ 3) :: continuation 3 c.toNat := by
  have hc := toNat_cases c
  have hn : c.val.toNat = c.toNat := rfl
  unfold utf8EncodeChar
  simp only [hn, ← Nat.lt_succ_iff, Nat.succ_eq_add_one, Nat.reduceAdd]
  split_ifs with h1 h2 h3
  · rfl
  · rw [Nat.mod_eq_of_lt (by omega : c.toNat / 64 < 32), Nat.add_comm]
    simp only [continuation, Nat.add_comm (_ % 64), Nat.reducePow, Nat.div_one]
  · rw [Nat.mod_eq_of_lt (by omega : c.toNat / 4096 < 16), Nat.add_comm]
    simp only [continuation, Nat.add_comm (_ % 64), Nat.reducePow, Nat.div_one]
  · rw [Nat.mod_eq_of_lt (by omega : c.toNat / 262144 < 8), Nat.add_comm]
    simp only [continuation, Nat.add_comm (_ % 64), Nat.reducePow, Nat.div_one]

theorem ofNat_eq_iff {n : ℕ} (hn : n < 256) : UInt8.ofNat n = b ↔ b.toNat = n := by
  rw [← UInt8.toNat_inj, UInt8.toNat_ofNat_of_lt' hn, eq_comm]

theorem encodeChar_eq_cons_one (h : b.toNat < 0xC0) :
    utf8EncodeChar c = b :: t ↔ (b.toNat < 0x80 ∧ c.toNat = b.toNat) ∧ t = [] := by
  have hc := toNat_cases c
  rw [encodeChar_eq]
  split_ifs <;> rw [List.cons.injEq, ofNat_eq_iff (by omega)]
  · exact and_congr (by omega) eq_comm
  all_goals exact iff_of_false (by omega) (by omega)

theorem encodeChar_eq_cons_two (h : 0xC0 ≤ b.toNat) (h' : b.toNat < 0xE0) :
    utf8EncodeChar c = b :: t ↔
      (0x80 ≤ c.toNat ∧ b.toNat = 0xC0 + c.toNat / 64) ∧ t = continuation 1 c.toNat := by
  have hc := toNat_cases c
  rw [encodeChar_eq]
  split_ifs <;> rw [List.cons.injEq, ofNat_eq_iff (by omega)]
  · exact iff_of_false (by omega) (by omega)
  · exact and_congr (by omega) eq_comm
  all_goals exact iff_of_false (by omega) (by omega)

theorem encodeChar_eq_cons_three (h : 0xE0 ≤ b.toNat) (h' : b.toNat < 0xF0) :
    utf8EncodeChar c = b :: t ↔
      (0x800 ≤ c.toNat ∧ b.toNat = 0xE0 + c.toNat / 64 ^ 2) ∧ t = continuation 2 c.toNat := by
  have hc := toNat_cases c
  rw [encodeChar_eq]
  split_ifs <;> rw [List.cons.injEq, ofNat_eq_iff (by omega)]
  · exact iff_of_false (by omega) (by omega)
  · exact iff_of_false (by omega) (by omega)
  · exact and_congr (by omega) eq_comm
  · exact iff_of_false (by omega) (by omega)

theorem encodeChar_eq_cons_four (h : 0xF0 ≤ b.toNat) :
    utf8EncodeChar c = b :: t ↔
      (0x10000 ≤ c.toNat ∧ b.toNat = 0xF0 + c.toNat / 64 ^ 3) ∧ t = continuation 3 c.toNat := by
  have hc := toNat_cases c
  rw [encodeChar_eq]
  split_ifs <;> rw [List.cons.injEq, ofNat_eq_iff (by omega)]
  · exact iff_of_false (by omega) (by omega)
  · exact iff_of_false (by omega) (by omega)
  · exact iff_of_false (by omega) (by omega)
  · exact and_congr (by omega) eq_comm

theorem char_ofNat_eq_iff {n : ℕ} (hn : n.isValidChar) : Char.ofNat n = c ↔ c.toNat = n := by
  constructor
  · rintro rfl
    rw [Char.ofNat, dif_pos hn]
    rfl
  · rintro rfl
    exact Char.ofNat_toNat c

theorem encodeChar_eq_cons_iff : utf8EncodeChar c = b :: t ↔ Completes c t (start b) := by
  have hc := toNat_cases c
  simp only [start]
  split_ifs
  · rw [encodeChar_eq_cons_one (by omega), Completes, Piece.char.injEq,
      char_ofNat_eq_iff (.inl (by omega))]
    exact and_congr_left fun _ => by omega
  · refine iff_of_false ?_ (by simp [Completes])
    by_cases h : b.toNat < 0xC0
    · rw [encodeChar_eq_cons_one h]
      omega
    · rw [encodeChar_eq_cons_two (by omega) (by omega)]
      omega
  · rw [encodeChar_eq_cons_two (by omega) (by omega)]
    exact and_congr_left fun _ => by simp only [Pending.Matches]; omega
  · rw [encodeChar_eq_cons_three (by omega) (by omega)]
    exact and_congr_left fun _ => by simp only [Pending.Matches]; omega
  · rw [encodeChar_eq_cons_three (by omega) (by omega)]
    exact and_congr_left fun _ => by simp only [Pending.Matches]; omega
  · rw [encodeChar_eq_cons_three (by omega) (by omega)]
    exact and_congr_left fun _ => by simp only [Pending.Matches]; omega
  · rw [encodeChar_eq_cons_four (by omega)]
    exact and_congr_left fun _ => by simp only [Pending.Matches]; omega
  · rw [encodeChar_eq_cons_four (by omega)]
    exact and_congr_left fun _ => by simp only [Pending.Matches]; omega
  · rw [encodeChar_eq_cons_four (by omega)]
    exact and_congr_left fun _ => by simp only [Pending.Matches]; omega
  · refine iff_of_false ?_ (by simp [Completes])
    rw [encodeChar_eq_cons_four (by omega)]
    omega

theorem sound_start {p : Pending} (h : start b = .inr p) : p.Sound := by
  simp only [start] at h
  split_ifs at h <;> cases h
  all_goals
    refine ⟨by simp, by simp, fun n hn => ?_⟩
    simp only [Pending.Matches] at hn
    unfold Nat.isValidChar
    omega

end FirstByte

section LaterBytes

variable {p : Pending} {c : Char} {b : UInt8} {t : List UInt8}

theorem accepts_iff : p.accepts b = true ↔ p.low ≤ b.toNat ∧ b.toNat ≤ p.high := by
  simp [Pending.accepts]

theorem extend_cases (p : Pending) (b : UInt8) :
    (p.more = 0 ∧ p.extend b = .inl (.char (Char.ofNat (p.bits * 64 + (b.toNat - 0x80)))))
      ∨ ∃ more, p.more = more + 1 ∧ p.extend b
        = .inr ⟨p.seen ++ [b], p.bits * 64 + (b.toNat - 0x80), 0x80, 0xBF, more⟩ := by
  unfold Pending.extend
  rcases p.more with _ | more
  · exact .inl ⟨rfl, rfl⟩
  · exact .inr ⟨more, rfl, rfl⟩

theorem div_pow_succ (n k : ℕ) : n / 64 ^ (k + 1) = n / 64 ^ k / 64 := by
  rw [Nat.div_div_eq_div_mul, Nat.pow_succ]

variable (hp : p.Sound)

include hp

theorem matches_extended (hb : p.accepts b = true) {more : ℕ} (hmore : p.more = more + 1)
    (seen : List UInt8) (n : ℕ) :
    Pending.Matches ⟨seen, p.bits * 64 + (b.toNat - 0x80), 0x80, 0xBF, more⟩ n
      ↔ p.Matches n ∧ b.toNat = 0x80 + n / 64 ^ p.more % 64 := by
  have hlow := hp.low
  have hhigh := hp.high
  rw [accepts_iff] at hb
  simp only [Pending.Matches, hmore, div_pow_succ n (more + 1)]
  generalize n / 64 ^ (more + 1) = x
  omega

theorem sound_of_extend (hb : p.accepts b = true) {q : Pending} (h : p.extend b = .inr q) :
    q.Sound := by
  rcases extend_cases p b with ⟨-, hextend⟩ | ⟨more, hmore, hextend⟩
  · cases hextend.symm.trans h
  · cases hextend.symm.trans h
    exact ⟨by simp, by simp, fun n hn => hp.valid n ((matches_extended hp hb hmore _ n).1 hn).1⟩

theorem completes_cons_iff :
    Completes c (b :: t) (.inr p) ↔ p.accepts b = true ∧ Completes c t (p.extend b) := by
  have hlow := hp.low
  have hhigh := hp.high
  have hbyte : b = .ofNat (0x80 + c.toNat / 64 ^ p.more % 64)
      ↔ b.toNat = 0x80 + c.toNat / 64 ^ p.more % 64 := by
    rw [eq_comm, ofNat_eq_iff (by omega)]
  rw [Completes, continuation, List.cons.injEq, hbyte, ← and_assoc]
  by_cases hb : p.accepts b = true
  · rw [and_iff_right hb]
    rcases extend_cases p b with ⟨hmore, hextend⟩ | ⟨more, hmore, hextend⟩
    · have hvalid := hp.valid (p.bits * 64 + (b.toNat - 0x80))
      rw [accepts_iff] at hb
      simp only [Pending.Matches, hmore, Nat.reduceAdd, Nat.reducePow, Nat.div_one] at hvalid ⊢
      rw [hextend, Completes, Piece.char.injEq, char_ofNat_eq_iff (hvalid (by omega))]
      exact and_congr_left fun _ => by omega
    · rw [hextend, Completes, matches_extended hp hb hmore, hmore]
  · refine iff_of_false ?_ (fun h => hb h.1)
    rintro ⟨⟨hc, hbits⟩, -⟩
    rw [accepts_iff] at hb
    exact hb (hbits ▸ hc.2)

end LaterBytes

section Decoding

variable {bytes bs : List UInt8} {b : UInt8} {p : Pending} {cs : List Char}

/-- The pieces when the first bytes have come to a piece or a beginning. -/
def piecesAfter (bs : List UInt8) : Piece ⊕ Pending → List Piece
  | .inl piece => piece :: pieces bs
  | .inr p => piecesFrom (some p) bs

theorem pieces_cons : pieces (b :: bs) = piecesAfter bs (start b) := by
  unfold pieces piecesFrom
  rcases start b with piece | p <;> rfl

theorem piecesFrom_some_cons : piecesFrom (some p) (b :: bs) =
    if p.accepts b then piecesAfter bs (p.extend b)
    else .damaged p.seen :: piecesAfter bs (start b) := by
  rw [piecesFrom]
  split_ifs
  · rcases p.extend b with piece | q <;> rfl
  · rcases start b with piece | q <;> rfl

theorem not_completes_nil {c : Char} : ¬ Completes c [] (.inr p) := by
  rintro ⟨-, h⟩
  cases h

theorem piecesAfter_inl_eq_map_iff {piece : Piece} :
    piecesAfter bs (.inl piece) = cs.map .char ↔ ∃ c cs' t rest, cs = c :: cs' ∧ bs = t ++ rest
      ∧ Completes c t (.inl piece) ∧ pieces rest = cs'.map .char := by
  constructor
  · intro h
    cases cs with
    | nil => cases h
    | cons c cs =>
      obtain ⟨rfl, hrest⟩ := List.cons.inj h
      exact ⟨c, cs, [], bs, rfl, rfl, ⟨rfl, rfl⟩, hrest⟩
  · rintro ⟨c, cs', _, rest, rfl, rfl, ⟨rfl, rfl⟩, hrest⟩
    exact congrArg (.char c :: ·) hrest

/-- The induction is on the bytes, as the decoder recurses on them. -/
theorem piecesAfter_eq_map_iff {x : Piece ⊕ Pending} (hx : ∀ p, x = .inr p → p.Sound) :
    piecesAfter bs x = cs.map .char ↔ ∃ c cs' t rest, cs = c :: cs' ∧ bs = t ++ rest
      ∧ Completes c t x ∧ pieces rest = cs'.map .char := by
  induction bs generalizing x with
  | nil =>
    rcases x with piece | p
    · exact piecesAfter_inl_eq_map_iff
    · refine iff_of_false (by cases cs <;> simp [piecesAfter, piecesFrom]) ?_
      rintro ⟨c, cs', t, rest, -, hbs, ht, -⟩
      obtain ⟨rfl, -⟩ := List.append_eq_nil_iff.1 hbs.symm
      exact not_completes_nil ht
  | cons b bs ih =>
    rcases x with piece | p
    · exact piecesAfter_inl_eq_map_iff
    · have hp := hx p rfl
      rw [piecesAfter, piecesFrom_some_cons]
      split_ifs with hb
      · rw [ih fun q hq => sound_of_extend hp hb hq]
        constructor
        · rintro ⟨c, cs', t, rest, rfl, rfl, ht, hrest⟩
          exact ⟨c, cs', b :: t, rest, rfl, rfl, (completes_cons_iff hp).2 ⟨hb, ht⟩, hrest⟩
        · rintro ⟨c, cs', _ | ⟨b', t⟩, rest, rfl, hbs, ht, hrest⟩
          · exact absurd ht not_completes_nil
          · obtain ⟨rfl, rfl⟩ := List.cons.inj hbs
            exact ⟨c, cs', t, rest, rfl, rfl, ((completes_cons_iff hp).1 ht).2, hrest⟩
      · refine iff_of_false (by cases cs <;> simp) ?_
        rintro ⟨c, cs', _ | ⟨b', t⟩, rest, -, hbs, ht, -⟩
        · exact absurd ht not_completes_nil
        · obtain ⟨rfl, rfl⟩ := List.cons.inj hbs
          exact hb ((completes_cons_iff hp).1 ht).1

theorem pieces_eq_map_iff : pieces bytes = cs.map .char ↔ cs.flatMap utf8EncodeChar = bytes := by
  induction cs generalizing bytes with
  | nil =>
    cases bytes with
    | nil => exact iff_of_true rfl rfl
    | cons b bs =>
      rw [pieces_cons, piecesAfter_eq_map_iff fun p => sound_start]
      simp
  | cons c cs ih =>
    cases bytes with
    | nil => simp [pieces, piecesFrom, String.utf8EncodeChar_ne_nil]
    | cons b bs =>
      rw [pieces_cons, piecesAfter_eq_map_iff fun p => sound_start, List.flatMap_cons]
      constructor
      · rintro ⟨_, _, t, rest, hcs, rfl, ht, hrest⟩
        obtain ⟨rfl, rfl⟩ := List.cons.inj hcs
        rw [encodeChar_eq_cons_iff.2 ht, ih.1 hrest, List.cons_append]
      · intro h
        obtain ⟨b', t, ht⟩ := List.exists_cons_of_ne_nil (String.utf8EncodeChar_ne_nil (c := c))
        rw [ht, List.cons_append] at h
        obtain ⟨rfl, rfl⟩ := List.cons.inj h
        exact ⟨c, cs, t, _, rfl, rfl, encodeChar_eq_cons_iff.1 ht, ih.2 rfl⟩

theorem characters_eq_ok_iff : ∀ (offset : ℕ) {ps : List Piece} {cs : List Char},
    characters offset ps = .ok cs ↔ ps = cs.map .char
  | _, [], cs => by cases cs <;> simp [characters]
  | _, .damaged _ :: _, cs => by cases cs <;> simp [characters]
  | offset, .char c :: ps, cs => by
    have ih (ds : List Char) : characters (offset + c.utf8Size) ps = .ok ds ↔ ps = ds.map .char :=
      characters_eq_ok_iff _
    rw [characters]
    rcases h : characters (offset + c.utf8Size) ps with e | ds <;> cases cs <;>
      simp_all [Except.map]

theorem encode_eq (s : String) : encode s = s.toList.flatMap utf8EncodeChar := by
  rw [encode, String.toUTF8_eq_toByteArray, ← String.utf8Encode_toList, List.utf8Encode,
    List.data_toByteArray]

theorem decode_eq_ok_iff {s : String} : decode bytes = .ok s ↔ encode s = bytes := by
  rw [encode_eq, ← pieces_eq_map_iff, ← characters_eq_ok_iff 0, decode]
  rcases characters 0 (pieces bytes) with e | cs
  · simp [Except.map]
  · simp only [Except.map, Except.ok.injEq]
    exact ⟨fun h => by rw [← h, String.toList_ofList], fun h => by rw [h, String.ofList_toList]⟩

end Decoding

end Resolution.Utf8
