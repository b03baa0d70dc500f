import Resolution.Decimal

/-!
# Shortest decimals

A floating-point number stands for all reals that are nearer to it than to its neighbours; of the
two halfway points it has both if its significand is even, and none if it is odd. It is written as
the decimal among them that has the fewest digits, and of several as the one nearest to it, or, if
two are equally near, the one whose last digit is even.
-/

namespace Resolution

/-- The number `significand * 2 ^ exponent`. -/
structure Binary where
  significand : Nat
  exponent : Int
  /-- The number below is half as far away as the number above. -/
  narrowBelow : Bool
deriving DecidableEq, Repr

namespace Binary

/-- The finite number, without its sign, whose bits are those of `bits`. -/
def ofBits (bits : Nat) : Binary :=
  let fraction := bits % 0x10000000000000
  match bits / 0x10000000000000 with
  | 0 => ⟨fraction, -1074, false⟩
  | field + 1 => ⟨0x10000000000000 + fraction, Int.ofNat field - 1074, fraction = 0 && field ≠ 0⟩

variable (x : Binary) (k : Int)

/-- Two factors: the significand times the first is `x / 10 ^ k` times the second. -/
def factors : Nat × Nat :=
  (Nat.pow 2 x.exponent.toNat * Nat.pow 10 (-k).toNat,
    Nat.pow 2 (-x.exponent).toNat * Nat.pow 10 k.toNat)

/-- The greatest multiple of `10 ^ k` that is not above the number. -/
def floor : Nat :=
  x.significand * (x.factors k).1 / (x.factors k).2

/-- The number stands for the `n`-th multiple of `10 ^ k`. -/
def standsFor (n : Nat) : Bool :=
  let (u, w) := x.factors k
  let point := 4 * n * w
  let below := (4 * x.significand - if x.narrowBelow then 1 else 2) * u
  let above := (4 * x.significand + 2) * u
  if x.significand % 2 = 0 then below ≤ point && point ≤ above else below < point && point < above

/-- Of two neighbouring multiples of `10 ^ k` between which the number lies, the nearer one. -/
def nearer : Nat :=
  let (u, w) := x.factors k
  let n := x.floor k
  match compare (2 * x.significand * u) ((2 * n + 1) * w) with
  | .lt => n
  | .gt => n + 1
  | .eq => if n % 2 = 0 then n else n + 1

/-- The multiple of `10 ^ k` that the number is written as, if it stands for any. -/
def multiple? : Option Nat :=
  let n := x.floor k
  match x.standsFor k n, x.standsFor k (n + 1) with
  | true, true => some (x.nearer k)
  | true, false => some n
  | false, true => some (n + 1)
  | false, false => none

/-- The number itself, as a decimal. -/
def exact : Decimal :=
  if 0 ≤ x.exponent then ⟨x.significand * Nat.pow 2 x.exponent.toNat, 0⟩
  else ⟨x.significand * Nat.pow 5 (-x.exponent).toNat, x.exponent⟩

/-- Tries ever smaller powers of ten, beginning with the first that does not exceed the number. -/
def search : (tries : Nat) → (k : Int) → Decimal
  | 0, _ => x.exact
  | tries + 1, k =>
    if x.floor k = 0 then search tries (k - 1)
    else
      match x.multiple? k with
      | some n => if n % 10 = 0 then ⟨n / 10, k + 1⟩ else ⟨n, k⟩
      | none => search tries (k - 1)

/-- The shortest decimal. The search begins with a power of ten that is estimated from the
number of bits, the logarithm of two being about 0.30103, and which exceeds the number by no more
than three digits; seventeen digits are always enough. -/
def shortest : Decimal :=
  let bits := Int.ofNat x.significand.log2 + 1 + x.exponent
  x.search 24 (bits * 30103 / 100000 + 1)

end Binary

/-- The text of a floating-point number. -/
def displayFloat (x : Float) : String :=
  let bits := x.toBits.toNat
  let magnitude := bits % 0x8000000000000000
  let sign := if bits = magnitude then "" else "-"
  if 0x7FF0000000000000 < magnitude then "nan"
  else if magnitude = 0x7FF0000000000000 then sign ++ "inf"
  else if magnitude = 0 then sign ++ "0.0"
  else sign ++ (Binary.ofBits magnitude).shortest.text

end Resolution
