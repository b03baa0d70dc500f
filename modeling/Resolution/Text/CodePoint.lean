import Resolution.Text.Quoted

/-!
# Text with surrogates

Where characters are spelled by their code points, a surrogate can be spelled that has no partner
and so stands for no character. Such text is kept as a sequence of code points. Quoted, it has an
escape for each surrogate.
-/

namespace Resolution

inductive CodePoint where
  | char (c : Char)
  | surrogate (unit : Nat)
deriving DecidableEq, Repr

namespace CodePoint

def char? : CodePoint → Option Char
  | char c => some c
  | surrogate _ => none

/-- The character that is shown, which is U+FFFD for a surrogate. -/
def shown : CodePoint → Char
  | char c => c
  | surrogate _ => '\uFFFD'

/-- The code point as it stands between two copies of `mark`. -/
def escape (mark : Char) : CodePoint → List Char
  | char c => Text.escapeChar mark c
  | surrogate unit => '\\' :: 'u' :: Text.hexDigits 4 unit

end CodePoint

structure CodeText where
  points : List CodePoint
deriving DecidableEq, Repr

namespace CodeText

def ofString (s : String) : CodeText :=
  ⟨s.toList.map .char⟩

instance : Coe String CodeText := ⟨ofString⟩

def toString (t : CodeText) : String :=
  .ofList (t.points.map CodePoint.shown)

def quote (t : CodeText) : String :=
  let mark := Text.quoteMark (t.points.filterMap CodePoint.char?)
  .ofList (mark :: t.points.flatMap (CodePoint.escape mark) ++ [mark])

@[simp]
theorem toString_ofString (s : String) : (ofString s).toString = s := by
  simp [ofString, toString, Function.comp_def, CodePoint.shown]

@[simp]
theorem quote_ofString (s : String) : (ofString s).quote = Text.quote s := by
  simp [ofString, quote, Text.quote, CodePoint.char?, CodePoint.escape, List.filterMap_map,
    Function.comp_def, List.flatMap_map]

end CodeText

end Resolution
