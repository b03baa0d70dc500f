import Resolution.Text.Blank

/-!
# Integers in text

An integer is read from its decimal digits, which may belong to any script, behind an optional
sign. One underscore may stand between two digits, and padding may surround the whole. Numerals
of more than 4300 digits are refused.
-/

namespace Resolution.Text

/-- The zeros of the decimal digits of Unicode 14.0; nine digits follow each of them. -/
def decimalZeros : List Nat :=
  [0x30, 0x660, 0x6F0, 0x7C0, 0x966, 0x9E6, 0xA66, 0xAE6, 0xB66, 0xBE6, 0xC66, 0xCE6, 0xD66,
    0xDE6, 0xE50, 0xED0, 0xF20, 0x1040, 0x1090, 0x17E0, 0x1810, 0x1946, 0x19D0, 0x1A80, 0x1A90,
    0x1B50, 0x1BB0, 0x1C40, 0x1C50, 0xA620, 0xA8D0, 0xA900, 0xA9D0, 0xA9F0, 0xAA50, 0xABF0,
    0xFF10, 0x104A0, 0x10D30, 0x11066, 0x110F0, 0x11136, 0x111D0, 0x112F0, 0x11450, 0x114D0,
    0x11650, 0x116C0, 0x11730, 0x118E0, 0x11950, 0x11C50, 0x11D50, 0x11DA0, 0x16A60, 0x16AC0,
    0x16B50, 0x1D7CE, 0x1D7D8, 0x1D7E2, 0x1D7EC, 0x1D7F6, 0x1E140, 0x1E2F0, 0x1E950, 0x1FBF0]

def digitValue? (c : Char) : Option Nat :=
  decimalZeros.findSome? fun base =>
    if base ≤ c.toNat ∧ c.toNat < base + 10 then some (c.toNat - base) else none

/-- The longest numeral that is read, in digits. -/
def maxDigits : Nat := 4300

/-- What may surround a numeral: the blanks other than the separators U+001C to U+001F. -/
def isPadding (c : Char) : Bool :=
  isBlank c && !CodeRange.covers ⟨0x1C, 0x1F⟩ c

/-- Reads the digits that follow those worth `value`. -/
def readDigits (value : Nat) : List Char → Option Nat
  | [] => some value
  | '_' :: c :: cs => do
    let d ← digitValue? c
    readDigits (value * 10 + d) cs
  | c :: cs => do
    let d ← digitValue? c
    readDigits (value * 10 + d) cs

def readNumeral? : List Char → Option Nat
  | [] => none
  | c :: cs => do
    let d ← digitValue? c
    if (cs.filter (· ≠ '_')).length < maxDigits then readDigits d cs else none

def readSigned? : List Char → Option Int
  | '+' :: cs => (readNumeral? cs).map Int.ofNat
  | '-' :: cs => (readNumeral? cs).map fun n => -Int.ofNat n
  | cs => (readNumeral? cs).map Int.ofNat

def readInteger? (s : String) : Option Int :=
  readSigned? ((s.toList.dropWhile isPadding).reverse.dropWhile isPadding).reverse

end Resolution.Text
