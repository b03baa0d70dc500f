/-!
# Decimals

A decimal is an integer scaled by a power of ten. As a floating-point number it is the one
nearest to it, which is infinite or zero when the decimal is out of range. As text it is written
with a point if that takes no more than three zeros in front of its digits and no more than
sixteen digits in front of the point, and otherwise with an exponent.
-/

namespace Resolution

/-- The number `digits * 10 ^ exponent`. -/
structure Decimal where
  digits : Nat
  exponent : Int
deriving DecidableEq, Repr

namespace Decimal

/-- The digits as text. -/
def numeral (d : Decimal) : List Char :=
  (toString d.digits).toList

/-- The place of the point, counted from before the first digit. -/
def order (d : Decimal) : Int :=
  d.numeral.length + d.exponent

def infinity : Float :=
  .ofBits 0x7FF0000000000000

/-- The nearest floating-point number. What has more than 310 digits in front of the point is
infinite, and what has more than 330 zeros behind it is zero. -/
def toFloat (d : Decimal) : Float :=
  if d.digits = 0 ∨ d.order < -330 then 0
  else if 310 < d.order then infinity
  else .ofScientific d.digits (d.exponent < 0) d.exponent.natAbs

/-- The digits with a point among, before or behind them. -/
def positional (d : Decimal) : List Char :=
  let cs := d.numeral
  if d.order ≤ 0 then '0' :: '.' :: List.replicate (-d.order).toNat '0' ++ cs
  else if 0 ≤ d.exponent then cs ++ List.replicate d.exponent.toNat '0' ++ ['.', '0']
  else cs.take d.order.toNat ++ '.' :: cs.drop d.order.toNat

/-- The digits with a point behind the first, and an exponent of two digits or more. -/
def scientific (d : Decimal) : List Char :=
  let fraction := match d.numeral.drop 1 with
    | [] => []
    | cs => '.' :: cs
  let exponent := d.order - 1
  let numeral := (toString exponent.natAbs).toList
  d.numeral.take 1 ++ fraction ++ 'e' :: (if exponent < 0 then '-' else '+') ::
    List.replicate (2 - numeral.length) '0' ++ numeral

def text (d : Decimal) : String :=
  .ofList (if -4 < d.order ∧ d.order ≤ 16 then d.positional else d.scientific)

end Decimal

end Resolution
