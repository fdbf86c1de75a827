/-! Numbers of the 64-bit binary floating-point format, as exact dyadic numbers:
rounding a quotient, truncation and comparison are integer arithmetic. -/

namespace PartialTx

/-- `finite negative m e` is `m · 2^e` with a sign. Rounding yields `m < 2^53` and
`-1074 ≤ e ≤ 971`, with `2^52 ≤ m` unless `e = -1074`, so that each number has one form. -/
inductive Binary64
  | nan
  | infinite (negative : Bool)
  | finite (negative : Bool) (mantissa : Nat) (exponent : Int)
  deriving DecidableEq, Inhabited

namespace Binary64

/-- The power of a base with any exponent, as a quotient of natural numbers. -/
def power (base : Nat) (e : Int) : Nat × Nat :=
  if 0 ≤ e then (base.pow e.toNat, 1) else (1, base.pow (-e).toNat)

/-- The least mantissa in the normal range, `2^52`; all mantissas are below its double. -/
def leastNormal : Nat := 0x10000000000000

/-- The integer nearest to `num / den`, a half going to the even neighbour. -/
def roundDiv (num den : Nat) : Nat :=
  let q := num / den
  let r := num % den
  if den < 2 * r || (den == 2 * r && q % 2 == 1) then q + 1 else q

/-- The exponent of the grid on which `num / den` is rounded: 53 significant bits, fewer
below the normal range. -/
def gridExponent (num den : Nat) : Int :=
  let e : Int := (num.log2 : Int) - den.log2 - 53
  let (up, down) := power 2 e
  let e := if 2 * leastNormal * (den * up) ≤ num * down then e + 1 else e
  max e (-1074)

/-- The number of the format nearest to `num / den`, ties to the even mantissa. -/
def ofRatio (negative : Bool) (num den : Nat) : Binary64 :=
  if num = 0 then .finite negative 0 (-1074)
  else
    let e := gridExponent num den
    let (up, down) := power 2 e
    let m := roundDiv (num * down) (den * up)
    let (m, e) := if m = 2 * leastNormal then (leastNormal, e + 1) else (m, e)
    if 971 < e then .infinite negative else .finite negative m e

/-- The number nearest to `digits · 10^e`. Far outside the range of the format the
power of ten is not computed. -/
def ofDecimal (negative : Bool) (digits : Nat) (e : Int) : Binary64 :=
  let size : Int := (toString digits).length + e
  if digits = 0 then .finite negative 0 (-1074)
  else if 310 < size then .infinite negative
  else if size < -330 then .finite negative 0 (-1074)
  else
    let (up, down) := power 10 e
    ofRatio negative (digits * up) down

def ofInt (n : Int) : Binary64 := ofRatio (n < 0) n.natAbs 1

def isZero : Binary64 → Bool
  | finite _ m _ => m == 0
  | _ => false

/-- The whole part, fraction dropped; only finite numbers have one. -/
def truncate? : Binary64 → Option Int
  | finite negative m e =>
    let (up, down) := power 2 e
    let whole : Int := ↑(m * up / down)
    some (if negative then -whole else whole)
  | _ => none

/-- The integer that a number is. -/
def whole? (x : Binary64) : Option Int :=
  match x with
  | finite _ m e =>
    let (up, down) := power 2 e
    if m * up % down = 0 then x.truncate? else none
  | _ => none

/-- Whether two numbers are equal in value: both zeros are, and NaN is equal to nothing. -/
def equals (x y : Binary64) : Bool := x != nan && (x == y || (x.isZero && y.isZero))

/-- Whether a natural number is above the given number; nothing is above or below NaN. -/
def below (x : Binary64) (n : Nat) : Bool :=
  match x with
  | nan => false
  | infinite negative => negative
  | finite negative m e =>
    let (up, down) := power 2 e
    if negative then n != 0 || m != 0 else m * up < n * down

def isNegative : Binary64 → Bool
  | nan => false
  | infinite negative => negative
  | finite negative m _ => negative && m != 0

end Binary64

end PartialTx
