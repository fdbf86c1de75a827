import PartialTx.Binary64.Basic

/-! The text of a number: the fewest significant digits that read back as the same
number and, of those, the nearest to it; positional from 0.0001 up to below 10^16,
with an exponent elsewhere. -/

namespace PartialTx.Binary64

/-- The number of digits before the decimal point of `num / den`; zero or negative when
zeros follow the point. The binary logarithms leave four to choose from. -/
def pointPosition (num den : Nat) : Int :=
  let least := ((num.log2 : Int) - den.log2 - 1) * 30103 / 100000
  let isAbove (position : Int) : Bool :=
    let (tens, tensBelow) := power 10 position
    num * tensBelow < den * tens
  (((List.range 4).map fun (n : Nat) => least + n).find? isAbove).getD least

/-- The multiple of `10^g` nearest to `m · 2^e` among those that read back, if any does.
The interval that rounds to `m · 2^e` reaches half way to both neighbours, the lower of
which is nearer at a power of two, and holds its ends exactly if `m` is even. -/
def nearestMultiple? (m : Nat) (e g : Int) : Option Nat :=
  let (tens, tensBelow) := power 10 g
  let (twos, twosBelow) := power 2 (e - 2)
  let step := tens * twosBelow
  let quarter := twos * tensBelow
  let value := 4 * m * quarter
  let low := (if m = leastNormal ∧ -1074 < e then 4 * m - 1 else 4 * m - 2) * quarter
  let high := (4 * m + 2) * quarter
  let readsBack (c : Nat) : Bool :=
    if m % 2 == 0 then low ≤ c * step && c * step ≤ high
    else low < c * step && c * step < high
  let c := value / step
  match readsBack c, readsBack (c + 1) with
  | true, true => some (roundDiv value step)
  | true, false => some c
  | false, true => some (c + 1)
  | false, false => none

/-- Digits without trailing zeros, and the power of ten of the last one, for `m · 2^e`. -/
def shortest (m : Nat) (e : Int) : List Char × Int :=
  let (up, down) := power 2 e
  let position := pointPosition (m * up) down
  let grids := (List.range 17).map fun (n : Nat) => position - (n + 1)
  let found := grids.findSome? fun g => (nearestMultiple? m e g).map fun c => (c, g)
  let (c, g) := found.getD (m * up / down, 0)
  let digits := (toString c).toList
  let kept := (digits.reverse.dropWhile (· == '0')).reverse
  (kept, g + (digits.length - kept.length))

/-- An exponent of ten with its sign and at least two digits. -/
def exponentText (e : Int) : String :=
  let digits := toString e.natAbs
  (if e < 0 then "e-" else "e+") ++ (if digits.length < 2 then "0" ++ digits else digits)

/-- Digits with a point after the first `position` of them. -/
def positional (digits : List Char) (position : Int) : String :=
  if position ≤ 0 then
    "0." ++ String.ofList (List.replicate (-position).toNat '0' ++ digits)
  else
    let whole := digits.take position.toNat
    let padding := List.replicate (position.toNat - whole.length) '0'
    let fraction := digits.drop position.toNat
    String.ofList (whole ++ padding ++ '.' :: (if fraction.isEmpty then ['0'] else fraction))

def exponential (digits : List Char) (position : Int) : String :=
  let fraction := digits.drop 1
  String.ofList (digits.take 1 ++ if fraction.isEmpty then [] else '.' :: fraction)
    ++ exponentText (position - 1)

def text : Binary64 → String
  | nan => "nan"
  | infinite negative => if negative then "-inf" else "inf"
  | finite negative m e =>
    let sign := if negative then "-" else ""
    if m = 0 then sign ++ "0.0"
    else
      let (digits, last) := shortest m e
      let position := last + digits.length
      sign ++ if -4 < position ∧ position ≤ 16 then positional digits position
        else exponential digits position

end PartialTx.Binary64
