import Resolution.Token

/-!
# Tokens by matching

The tokens of a text as a pattern finds them, one match after the other: some blanks, and behind
them a parenthesis or a run of letters. The blanks are taken first, as many as there are, and are
given back one by one as long as no token follows them. Each match begins where the last one ended.
-/

namespace Resolution.Token

/-- The token that stands at the beginning of a text, and the rest of the text. -/
def tokenHere? : List Char → Option (Token × List Char)
  | [] => none
  | c :: cs =>
    if c = '(' then some (.opening, cs)
    else if c = ')' then some (.closing, cs)
    else if isLetter c then
      some (.word (.ofList (c :: cs.takeWhile isLetter)), cs.dropWhile isLetter)
    else none

/-- The first match of the pattern at the beginning of a text: the token behind at most `blanks`
characters, and the rest of the text. -/
def tokenBehind? (cs : List Char) : (blanks : Nat) → Option (Token × List Char)
  | 0 => tokenHere? cs
  | blanks + 1 => (tokenHere? (cs.drop (blanks + 1))).or (tokenBehind? cs blanks)

def matchToken? (cs : List Char) : Option (Token × List Char) :=
  tokenBehind? cs (cs.takeWhile Text.isBlank).length

/-- The tokens from here to the end of the text, or the character at which none is matched. A match
that has come no further is refused too. -/
def tokensFrom (cs : List Char) : Except (Option Char) (List Token) :=
  if cs.isEmpty then .ok []
  else
    match matchToken? cs with
    | none => .error (Text.trimStart cs).head?
    | some (t, rest) =>
      if rest.length < cs.length then (tokensFrom rest).map (t :: ·)
      else .error (Text.trimStart cs).head?
termination_by cs.length

end Token

/-- Blanks at the end of the text are taken off before the first match. -/
def tokenizeByMatching (s : String) : Except (Option Char) (List Token) :=
  Token.tokensFrom (Text.trimEnd s.toList)

end Resolution
