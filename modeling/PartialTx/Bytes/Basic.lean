/-! Byte strings as lists of bytes, and unsigned words of a fixed width with the
least significant byte first. -/

namespace PartialTx

abbrev Bytes := List UInt8

namespace Bytes

/-- The low `width` bytes of `n`, least significant first. -/
def ofWord : (width : Nat) → (n : Nat) → Bytes
  | 0, _ => []
  | width + 1, n => UInt8.ofNat n :: ofWord width (n / 256)

def toWord : Bytes → Nat
  | [] => 0
  | b :: bs => b.toNat + 256 * toWord bs

/-- The number of words of a width. -/
def wordCount : (width : Nat) → Nat
  | 0 => 1
  | width + 1 => 256 * wordCount width

@[simp] theorem length_ofWord (width n : Nat) : (ofWord width n).length = width := by
  induction width generalizing n with
  | zero => rfl
  | succ width ih => simp [ofWord, ih]

theorem toWord_ofWord (width n : Nat) : toWord (ofWord width n) = n % wordCount width := by
  induction width generalizing n with
  | zero => simp [ofWord, toWord, wordCount, Nat.mod_one]
  | succ width ih =>
    have hb : (UInt8.ofNat n).toNat = n % 256 := UInt8.toNat_ofNat'
    rw [ofWord, toWord, ih, hb, wordCount, Nat.mod_mul]

theorem ofWord_toWord (bs : Bytes) : ofWord bs.length (toWord bs) = bs := by
  induction bs with
  | nil => rfl
  | cons b bs ih =>
    have hb := b.toNat_lt
    have hd : (b.toNat + 256 * toWord bs) / 256 = toWord bs := by omega
    have hh : UInt8.ofNat (b.toNat + 256 * toWord bs) = b := by
      apply UInt8.toNat_inj.mp
      rw [UInt8.toNat_ofNat']
      omega
    simp only [List.length_cons, toWord, ofWord, hd, hh, ih]

theorem toWord_lt (bs : Bytes) : toWord bs < wordCount bs.length := by
  induction bs with
  | nil => exact Nat.zero_lt_one
  | cons b bs ih =>
    have hb := b.toNat_lt
    simp only [toWord, List.length_cons, wordCount]
    omega

/-- Cuts a byte string into pieces of `width` bytes and drops what is left over;
`done` holds the pieces already cut, last first. -/
def piecesOnto (width : Nat) (done : List Bytes) (bs : Bytes) : List Bytes :=
  let piece := bs.take width
  if _h : 0 < width ∧ piece.length = width then
    piecesOnto width (piece :: done) (bs.drop width)
  else done.reverse
termination_by bs.length
decreasing_by
  obtain ⟨hw, hp⟩ := _h
  rw [List.length_take] at hp
  simp only [List.length_drop]
  omega

def pieces (width : Nat) (bs : Bytes) : List Bytes := piecesOnto width [] bs

end Bytes

end PartialTx
