/-!
# UTF-8

Bytes are cut into pieces: the characters they encode, and between these the longest stretches
that start like a character and then break off, or a single byte where none can start.
Surrogates, overlong forms and values above U+10FFFF are not characters. Content is well formed
when every piece is a character; in a damaged text every other piece reads as U+FFFD.
-/

namespace Resolution.Utf8

inductive Piece where
  | char (c : Char)
  | damaged (bytes : List UInt8)
deriving DecidableEq, Repr

/-- The beginning of a character: its bytes so far, the bits they carry, the range that the next
byte has to be in, and the number of bytes after that one. -/
structure Pending where
  seen : List UInt8
  bits : Nat
  low : Nat
  high : Nat
  more : Nat
deriving DecidableEq, Repr

/-- What a byte can be on which a piece begins. -/
def start (b : UInt8) : Piece ⊕ Pending :=
  let n := b.toNat
  if n < 0x80 then .inl (.char (Char.ofNat n))
  else if n < 0xC2 then .inl (.damaged [b])
  else if n < 0xE0 then .inr ⟨[b], n - 0xC0, 0x80, 0xBF, 0⟩
  else if n = 0xE0 then .inr ⟨[b], 0, 0xA0, 0xBF, 1⟩
  else if n = 0xED then .inr ⟨[b], n - 0xE0, 0x80, 0x9F, 1⟩
  else if n < 0xF0 then .inr ⟨[b], n - 0xE0, 0x80, 0xBF, 1⟩
  else if n = 0xF0 then .inr ⟨[b], 0, 0x90, 0xBF, 2⟩
  else if n < 0xF4 then .inr ⟨[b], n - 0xF0, 0x80, 0xBF, 2⟩
  else if n = 0xF4 then .inr ⟨[b], 4, 0x80, 0x8F, 2⟩
  else .inl (.damaged [b])

/-- The byte `b` can follow what `p` has seen. -/
def Pending.accepts (p : Pending) (b : UInt8) : Bool :=
  p.low ≤ b.toNat && b.toNat ≤ p.high

/-- The character or the longer beginning that an accepted byte makes. -/
def Pending.extend (p : Pending) (b : UInt8) : Piece ⊕ Pending :=
  let bits := p.bits * 64 + (b.toNat - 0x80)
  match p.more with
  | 0 => .inl (.char (Char.ofNat bits))
  | more + 1 => .inr ⟨p.seen ++ [b], bits, 0x80, 0xBF, more⟩

/-- The pieces of `bytes` after the beginning `pending`, if one is open. -/
def piecesFrom (pending : Option Pending) : List UInt8 → List Piece
  | [] => (pending.map fun p => Piece.damaged p.seen).toList
  | b :: bs =>
    match pending with
    | none =>
      match start b with
      | .inl piece => piece :: piecesFrom none bs
      | .inr p => piecesFrom (some p) bs
    | some p =>
      if p.accepts b then
        match p.extend b with
        | .inl piece => piece :: piecesFrom none bs
        | .inr q => piecesFrom (some q) bs
      else
        match start b with
        | .inl piece => .damaged p.seen :: piece :: piecesFrom none bs
        | .inr q => .damaged p.seen :: piecesFrom (some q) bs

def pieces (bytes : List UInt8) : List Piece :=
  piecesFrom none bytes

/-- The number of bytes that a piece takes up. -/
def Piece.size : Piece → Nat
  | .char c => c.utf8Size
  | .damaged bytes => bytes.length

/-- The characters of well-formed pieces, or the offset of the first damaged one when the pieces
begin at `offset`. -/
def characters (offset : Nat) : List Piece → Except Nat (List Char)
  | [] => .ok []
  | .char c :: ps => (characters (offset + c.utf8Size) ps).map (c :: ·)
  | .damaged _ :: _ => .error offset

/-- The text that well-formed bytes encode, or the offset of the first damage. -/
def decode (bytes : List UInt8) : Except Nat String :=
  (characters 0 (pieces bytes)).map String.ofList

/-- U+FFFD stands where bytes encode no character. -/
def replacement : Char := '\uFFFD'

/-- The text of `bytes` with one replacement character for each damaged piece. -/
def decodeLossy (bytes : List UInt8) : String :=
  .ofList ((pieces bytes).map fun
    | .char c => c
    | .damaged _ => replacement)

def encode (s : String) : List UInt8 :=
  s.toUTF8.data.toList

/-- The byte order mark, which may open a file. -/
def byteOrderMark : List UInt8 := [0xEF, 0xBB, 0xBF]

/-- The bytes without a byte order mark at its start. -/
def dropMark (bytes : List UInt8) : List UInt8 :=
  if byteOrderMark.isPrefixOf bytes then bytes.drop byteOrderMark.length else bytes

end Resolution.Utf8
