import PartialTx.Bytes.Basic
import PartialTx.Text.Basic
import PartialTx.Text.Space

/-! Hexadecimal text. Writing gives two lower-case digits a byte. Reading takes
either case and allows blanks around the pairs, never inside one; `isHexText`
admits the strict form only. -/

namespace PartialTx.Bytes

def hexDigit (n : UInt8) : Char :=
  if n < 10 then Char.ofNat (48 + n.toNat) else Char.ofNat (87 + n.toNat)

def hexPair (b : UInt8) : List Char := [hexDigit (b >>> 4), hexDigit (b &&& 15)]

/-- A text with the two digits of a byte behind it. -/
def pushHex (s : String) (b : UInt8) : String :=
  (s.push (hexDigit (b >>> 4))).push (hexDigit (b &&& 15))

def hex (bs : Bytes) : String := bs.foldl pushHex ""

theorem toList_hex (bs : Bytes) : bs.hex.toList = bs.flatMap hexPair := by
  suffices h : ∀ s : String, (bs.foldl pushHex s).toList = s.toList ++ bs.flatMap hexPair by
    simp [hex, h]
  induction bs with
  | nil => simp
  | cons b bs ih => intro s; simp [ih, pushHex, hexPair]

def hexValue? (c : Char) : Option UInt8 :=
  if '0' ≤ c ∧ c ≤ '9' then some (UInt8.ofNat (c.toNat - 48))
  else if 'a' ≤ c ∧ c ≤ 'f' then some (UInt8.ofNat (c.toNat - 87))
  else if 'A' ≤ c ∧ c ≤ 'F' then some (UInt8.ofNat (c.toNat - 55))
  else none

/-- Reads pairs of digits; `done` holds the bytes already read, last first. -/
def ofHexOnto (done : Bytes) : List Char → Option Bytes
  | [] => some done.reverse
  | [c] => if Text.isBlank c then some done.reverse else none
  | c :: d :: rest =>
    if Text.isBlank c then ofHexOnto done (d :: rest)
    else
      match hexValue? c, hexValue? d with
      | some high, some low => ofHexOnto ((16 * high + low) :: done) rest
      | _, _ => none

def ofHex? (t : Text) : Option Bytes := ofHexOnto [] t.chars

/-- Whether a text is hexadecimal with no blank anywhere. -/
def isHexText (t : Text) : Bool :=
  t.length % 2 == 0 && !t.chars.any Text.isSpace && (ofHex? t).isSome

end PartialTx.Bytes
