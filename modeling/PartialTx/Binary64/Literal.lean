import PartialTx.Binary64.Basic
import PartialTx.Text.Numeral

/-! Reading a number from decimal text: a sign, digits with an optional point, an
optional exponent; or a name of infinity or NaN. However long the text is, few of its
digits take part in the arithmetic. -/

namespace PartialTx.Binary64

def isZeroDigit (c : Char) : Bool := c == '0'

/-- No number of the format, and none halfway between two of them, has more significant
decimal digits. -/
def maxSignificant : Nat := 768

/-- The digits that decide which number is nearest, and how many are left out behind them.
If not all of the rest are zeros, a one stands for it: the value stays on the same side of
every number that has no more digits than are kept. -/
def significant (digits : List Char) : List Char × Nat :=
  let tail := digits.drop maxSignificant
  if tail.all isZeroDigit then (digits.take maxSignificant, tail.length)
  else (digits.take maxSignificant ++ ['1'], tail.length - 1)

/-- The value of `whole.fraction` times ten to the `e`. -/
def ofParts (negative : Bool) (whole fraction : List Char) (e : Int) : Binary64 :=
  let (digits, omitted) := significant ((whole ++ fraction).dropWhile isZeroDigit)
  ofDecimal negative (Text.decimal digits) (e - fraction.length + omitted)

/-- The longest exponent, leading zeros aside. A longer one is out of all proportion to the
length of any text, as are its first digits. -/
def maxExponentDigits : Nat := 20

/-- The exponent that digits denote. -/
def exponentOf (negative : Bool) (digits : List Char) : Int :=
  let n : Int := Text.decimal ((digits.dropWhile isZeroDigit).take maxExponentDigits)
  if negative then -n else n

/-- The exponent after its letter: an optional sign and at least one digit. -/
def exponent? (cs : List Char) : Option Int :=
  let (negative, digits) := Text.sign cs
  if digits.isEmpty || !digits.all Text.isDigit then none
  else some (exponentOf negative digits)

/-- An unsigned decimal: digits, a point with digits on at least one side, an exponent. -/
def unsigned? (negative : Bool) (cs : List Char) : Option Binary64 :=
  let whole := cs.takeWhile Text.isDigit
  let rest := cs.dropWhile Text.isDigit
  let (fraction, rest) :=
    match rest with
    | '.' :: tail => (tail.takeWhile Text.isDigit, tail.dropWhile Text.isDigit)
    | _ => ([], rest)
  if whole.isEmpty && fraction.isEmpty then none
  else
    match rest with
    | [] => some (ofParts negative whole fraction 0)
    | c :: tail =>
      if c == 'e' || c == 'E' then (exponent? tail).map (ofParts negative whole fraction)
      else none

def ofName? (negative : Bool) (cs : List Char) : Option Binary64 :=
  let name := String.ofList (cs.map Char.toLower)
  if name == "inf" || name == "infinity" then some (.infinite negative)
  else if name == "nan" then some .nan
  else none

/-- Reads a text that holds a number and nothing else. -/
def ofLiteral? (cs : List Char) : Option Binary64 := do
  let (negative, rest) := Text.sign (← Text.dropUnderscores ' ' cs)
  (ofName? negative rest) <|> (unsigned? negative rest)

end PartialTx.Binary64
