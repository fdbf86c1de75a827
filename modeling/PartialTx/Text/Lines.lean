import PartialTx.Text.Basic

/-! The lines of a text. Besides the line feed, the vertical tab, the form feed, the
carriage return, three information separators, the next line and the separators of
lines and of paragraphs end a line. -/

namespace PartialTx.Text

def isLineEnd (c : Char) : Bool :=
  ('\n' ≤ c && c ≤ '\r') || ('\x1c' ≤ c && c ≤ '\x1e') || c == '\x85' || c == '\u2028'
    || c == '\u2029'

/-- A text with a code point in front, line by line. -/
def consLine (p : CodePoint) : List Text → List Text
  | [] => [[p]]
  | line :: rest => (p :: line) :: rest

/-- The lines without their ends. A carriage return in front of a line feed ends no line of
its own, and nothing stands behind the last end. -/
def lines : Text → List Text
  | [] => []
  | p :: rest =>
    if p.toChar = '\r' ∧ rest.head?.map CodePoint.toChar = some '\n' then lines rest
    else if isLineEnd p.toChar then [] :: lines rest
    else consLine p (lines rest)

end PartialTx.Text
