import PartialTx.Bytes.Hex
import PartialTx.Text.Printable

/-! Quoted texts and byte strings. The quote is an apostrophe, unless the content
has apostrophes and no double quote; the backslash, the quote in use and whatever
does not show as itself are escaped. A buffer escapes its apostrophes under either
quote. -/

namespace PartialTx.Text

def apostrophe : Char := '\x27'
def doubleQuote : Char := '\x22'
def backslash : Char := '\x5c'

def quoteFor (content : Text) : Char :=
  if content.contains ↑apostrophe && !content.contains ↑doubleQuote then doubleQuote
  else apostrophe

/-- The low `width` hexadecimal digits of a number. -/
def hexDigits : (width : Nat) → (n : Nat) → List Char
  | 0, _ => []
  | width + 1, n => hexDigits width (n / 16) ++ [Bytes.hexDigit (UInt8.ofNat (n % 16))]

/-- A code point as `x`, `u` or `U` with two, four or eight digits. -/
def spellPoint (p : CodePoint) : List Char :=
  if p.toNat < 0x100 then 'x' :: hexDigits 2 p.toNat
  else if p.toNat < 0x10000 then 'u' :: hexDigits 4 p.toNat
  else 'U' :: hexDigits 8 p.toNat

/-- A code point between quotes; `marked` is escaped besides the backslash, and `shows` tells
which ones stand for themselves. -/
def escape (marked : Char) (shows : CodePoint → Bool) (p : CodePoint) : List Char :=
  match p.char? with
  | none => backslash :: spellPoint p
  | some c =>
    if c == marked || c == backslash then [backslash, c]
    else if c == '\n' then [backslash, 'n']
    else if c == '\r' then [backslash, 'r']
    else if c == '\t' then [backslash, 't']
    else if shows p then [c]
    else backslash :: spellPoint p

def enquote (quote marked : Char) (shows : CodePoint → Bool) (content : Text) : String :=
  String.ofList (quote :: (content.flatMap (escape marked shows) ++ [quote]))

def quoted (t : Text) : String := enquote (quoteFor t) (quoteFor t) isPrintable t

/-! ### Byte strings -/

/-- Bytes as the code points with their values. -/
def ofBytes (bs : Bytes) : Text := bs.map fun b => CodePoint.ofNat b.toNat

def isPlain (p : CodePoint) : Bool := 0x20 ≤ p.toNat && p.toNat < 0x7f

/-- A byte string as quoted characters, in which only ASCII shows as itself. -/
def quotedBytes (bs : Bytes) : String :=
  let content := ofBytes bs
  "b" ++ enquote (quoteFor content) (quoteFor content) isPlain content

def quotedBuffer (bs : Bytes) : String :=
  let content := ofBytes bs
  "bytearray(b" ++ enquote (quoteFor content) apostrophe isPlain content ++ ")"

end PartialTx.Text
