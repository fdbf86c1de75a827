/-! Texts as sequences of code points. Besides characters a text may hold halves of
surrogate pairs that stand alone, as the escapes of JSON can spell them; a text
without any is a string. -/

namespace PartialTx

/-- A code point: a character, or half of a surrogate pair. -/
structure CodePoint where
  val : UInt32
  val_lt : val.toNat < 0x110000
  deriving DecidableEq

namespace CodePoint

def toNat (p : CodePoint) : Nat := p.val.toNat

theorem toNat_val_lt (c : Char) : c.val.toNat < 0x110000 := by
  rcases c.valid with h | h
  · exact Nat.lt_trans h (by decide)
  · exact h.2

def ofChar (c : Char) : CodePoint := ⟨c.val, toNat_val_lt c⟩

instance : Coe Char CodePoint := ⟨ofChar⟩

/-- The code point of a number; beyond the last one it is that of the replacement
character. -/
def ofNat (n : Nat) : CodePoint :=
  if h : n < 0x110000 then ⟨UInt32.ofNatLT n (Nat.lt_trans h (by decide)), h⟩
  else ofChar '\ufffd'

/-- The character that a code point is, unless it is half of a pair. -/
def char? (p : CodePoint) : Option Char :=
  if h : p.val.isValidChar then some ⟨p.val, h⟩ else none

/-- A code point as a character; half of a pair reads as the replacement character, which no
grammar gives a meaning. -/
def toChar (p : CodePoint) : Char := p.char?.getD '\ufffd'

instance : LT CodePoint := ⟨fun a b => a.toNat < b.toNat⟩

instance (a b : CodePoint) : Decidable (a < b) := Nat.decLt a.toNat b.toNat

@[simp] theorem char?_ofChar (c : Char) : (ofChar c).char? = some c := dif_pos c.valid

@[simp] theorem toChar_ofChar (c : Char) : (ofChar c).toChar = c := by simp [toChar]

/-- A code point that reads as a character is that character, unless the replacement
character may stand for it. -/
theorem eq_ofChar {p : CodePoint} {c : Char} (h : p.toChar = c) (hc : c ≠ '\ufffd') :
    p = ofChar c := by
  unfold toChar char? at h
  split at h
  next hvalid =>
    subst h
    rfl
  next => exact absurd h.symm hc

end CodePoint

abbrev Text := List CodePoint

namespace Text

def ofString (s : String) : Text := s.toList.map CodePoint.ofChar

instance : Coe String Text := ⟨ofString⟩

/-- What a text reads as, character by character. -/
def chars (t : Text) : List Char := t.map CodePoint.toChar

def toString (t : Text) : String := String.ofList t.chars

@[simp] theorem chars_ofString (s : String) : (ofString s).chars = s.toList := by
  simp [chars, ofString, Function.comp_def]

@[simp] theorem toString_ofString (s : String) : (ofString s).toString = s := by
  simp [toString]

end Text

end PartialTx
