/-! White space: the blanks of ASCII, and the spaces of Unicode. -/

namespace PartialTx.Text

/-- Space, tab, line feed, vertical tab, form feed and carriage return. -/
def isBlank (c : Char) : Bool := c == ' ' || ('\t' ≤ c && c ≤ '\r')

/-- Characters that separate: the blanks, the ASCII information separators, and
the space, line and paragraph separators of Unicode. -/
def isSpace (c : Char) : Bool :=
  isBlank c || ('\x1c' ≤ c && c ≤ '\x1f') || c == '\x85' || c == '\xa0' || c == '\u1680'
    || ('\u2000' ≤ c && c ≤ '\u200a') || c == '\u2028' || c == '\u2029' || c == '\u202f'
    || c == '\u205f' || c == '\u3000'

/-- A text without the leading and trailing characters of a class. -/
def trim (blank : Char → Bool) (cs : List Char) : List Char :=
  ((cs.dropWhile blank).reverse.dropWhile blank).reverse

end PartialTx.Text
