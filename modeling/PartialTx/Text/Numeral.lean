import PartialTx.Text.Basic
import PartialTx.Text.DecimalDigit
import PartialTx.Text.Space

/-! Numerals as people type them: digits of any script, white space around them, and
single underscores between digits. Whole numbers with too many digits are neither read
nor written. -/

namespace PartialTx.Text

/-- A character of a numeral in ASCII; what is neither digit nor space becomes a question
mark, which no numeral holds. -/
def asciiOf (c : Char) : Char :=
  if c.toNat < 0x7f then c
  else if isSpace c then ' '
  else
    match anyDigitValue? c with
    | some d => Char.ofNat (48 + d)
    | none => '?'

/-- The characters of a numeral, without the blanks around it. -/
def numeral (t : Text) : List Char := trim isBlank (t.chars.map asciiOf)

/-- Underscores are dropped if each stands between two digits; `previous` is the character
before the first. -/
def dropUnderscores (previous : Char) : List Char → Option (List Char)
  | [] => some []
  | [c] => if c == '_' then none else some [c]
  | c :: d :: rest =>
    if c == '_' then
      if isDigit previous && isDigit d then dropUnderscores c (d :: rest) else none
    else (dropUnderscores c (d :: rest)).map (c :: ·)

/-- A sign, if there is one, and what follows it. -/
def sign : List Char → Bool × List Char
  | '-' :: rest => (true, rest)
  | '+' :: rest => (false, rest)
  | cs => (false, cs)

/-- The most digits that the numeral of a whole number may have, leading zeros counted. -/
def maxDigits : Nat := 4300

/-- Reads a whole number: a sign and at least one digit. -/
def int? (cs : List Char) : Option Int := do
  let (negative, digits) := sign (← dropUnderscores ' ' cs)
  if digits.isEmpty || !digits.all isDigit || maxDigits < digits.length then none
  else if negative then some (-(decimal digits : Int))
  else some (decimal digits)

/-! ### Writing -/

/-- Whether a whole number can be written; its sign does not count. -/
def hasNumeral (n : Int) : Bool := (Nat.toDigits 10 n.natAbs).length ≤ maxDigits

/-- The numeral of a whole number, if it has one. -/
def ofInt? (n : Int) : Option String := if hasNumeral n then some (ToString.toString n) else none

theorem length_toDigits_le_iff {n k : Nat} (hk : 0 < k) :
    (Nat.toDigits 10 n).length ≤ k ↔ n < Nat.pow 10 k :=
  Nat.length_toDigits_le_iff (by decide) hk

theorem hasNumeral_iff {n : Int} : hasNumeral n ↔ n.natAbs < Nat.pow 10 maxDigits :=
  decide_eq_true_iff.trans (length_toDigits_le_iff (by decide))

end PartialTx.Text
