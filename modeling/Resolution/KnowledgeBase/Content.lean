import Resolution.KnowledgeBase.Lines

/-!
# The content of a file as one text

A file that is well-formed UTF-8 throughout can be decoded as a whole and cut into lines
afterwards.
-/

namespace Resolution

/-- A text without a byte order mark at its start. -/
def dropTextMark : List Char → List Char
  | '\uFEFF' :: cs => cs
  | cs => cs

/-- The lines of a text. -/
def linesOfText (s : String) : List Line :=
  (Text.splitAfter '\n' (dropTextMark s.toList)).map fun line => .text (.ofList line)

end Resolution
