import PartialTx.Bytes.Hex

/-! Hexadecimal text reads back as the byte string that it was written from, so that no
two byte strings have the same text. In the strict form, without a blank, a text has two digits
for each byte, in either case, and nothing else. -/

namespace PartialTx.Bytes

theorem exists_digit {n : UInt8} (h : n < 16) : ∃ k : Fin 16, n = UInt8.ofNat k :=
  ⟨⟨n.toNat, h⟩, UInt8.ofNat_toNat.symm⟩

theorem hexValue?_hexDigit {n : UInt8} (h : n < 16) : hexValue? (hexDigit n) = some n := by
  obtain ⟨k, rfl⟩ := exists_digit h
  revert k
  decide

theorem isBlank_hexDigit {n : UInt8} (h : n < 16) : Text.isBlank (hexDigit n) = false := by
  obtain ⟨k, rfl⟩ := exists_digit h
  revert k
  decide

theorem shiftRight_lt (b : UInt8) : b >>> 4 < 16 := by
  rw [UInt8.lt_iff_toNat_lt, UInt8.toNat_shiftRight]
  have hb := b.toNat_lt
  have h4 : (4 : UInt8).toNat % 8 = 4 := rfl
  rw [h4, Nat.shiftRight_eq_div_pow]
  show b.toNat / 16 < 16
  omega

theorem and_lt (b : UInt8) : b &&& 15 < 16 := by
  rw [UInt8.lt_iff_toNat_lt, UInt8.toNat_and]
  exact Nat.lt_succ_of_le Nat.and_le_right

/-- A byte is put together again from its two digits. -/
theorem sixteen_mul_add (b : UInt8) : (16 : UInt8) * (b >>> 4) + (b &&& 15) = b := by
  apply UInt8.toNat_inj.1
  have hb := b.toNat_lt
  have hand : b.toNat &&& 15 = b.toNat % 16 := Nat.and_two_pow_sub_one_eq_mod b.toNat 4
  have hshift : b.toNat >>> 4 = b.toNat / 16 := Nat.shiftRight_eq_div_pow b.toNat 4
  simp only [UInt8.toNat_add, UInt8.toNat_mul, UInt8.toNat_shiftRight, UInt8.toNat_and,
    UInt8.reduceToNat, Nat.reduceMod, hand, hshift]
  omega

theorem ofHexOnto_hexPair (b : UInt8) (done : Bytes) (rest : List Char) :
    ofHexOnto done (hexPair b ++ rest) = ofHexOnto (b :: done) rest := by
  rw [hexPair, List.cons_append, List.cons_append, List.nil_append, ofHexOnto,
    isBlank_hexDigit (shiftRight_lt b), hexValue?_hexDigit (shiftRight_lt b),
    hexValue?_hexDigit (and_lt b)]
  simp only [sixteen_mul_add, Bool.false_eq_true, if_false]

theorem ofHexOnto_flatMap (bs done : Bytes) :
    ofHexOnto done (bs.flatMap hexPair) = some (done.reverse ++ bs) := by
  induction bs generalizing done with
  | nil => rw [List.append_nil]; rfl
  | cons b bs ih =>
    rw [List.flatMap_cons, ofHexOnto_hexPair, ih, List.reverse_cons, List.append_assoc]
    rfl

theorem ofHex?_hex (bs : Bytes) : ofHex? bs.hex = some bs := by
  rw [ofHex?, Text.chars_ofString, toList_hex, ofHexOnto_flatMap]
  rfl

theorem hex_inj {as bs : Bytes} (h : as.hex = bs.hex) : as = bs := by
  have hread := ofHex?_hex as
  rw [h, ofHex?_hex] at hread
  exact (Option.some.inj hread).symm

/-! ### The strict form -/

/-- A hexadecimal digit of ASCII, in either case, and its value. -/
inductive HexDigit : Char → Nat → Prop
  | decimal {n : Nat} (h : n < 10) : HexDigit (Char.ofNat ('0'.toNat + n)) n
  | lower {n : Nat} (h : n < 6) : HexDigit (Char.ofNat ('a'.toNat + n)) (10 + n)
  | upper {n : Nat} (h : n < 6) : HexDigit (Char.ofNat ('A'.toNat + n)) (10 + n)

def IsHexDigit (p : CodePoint) : Prop := ∃ c n, p = CodePoint.ofChar c ∧ HexDigit c n

/-- The bytes that a text denotes: there are two digits for each, the greater one first. -/
inductive Denotes : Text → Bytes → Prop
  | nil : Denotes [] []
  | cons {c d : Char} {high low : Nat} {t : Text} {bs : Bytes} (hc : HexDigit c high)
      (hd : HexDigit d low) (h : Denotes t bs) :
    Denotes (CodePoint.ofChar c :: CodePoint.ofChar d :: t) (UInt8.ofNat (16 * high + low) :: bs)

section
variable {c : Char} {n : Nat} {v : UInt8} {t : Text} {bs bs' : Bytes}

/-- A digit is read as its value, and is no space. -/
theorem HexDigit.read (h : HexDigit c n) :
    hexValue? c = some (UInt8.ofNat n) ∧ Text.isSpace c = false := by
  cases h with
  | decimal h =>
    revert n
    decide
  | @lower k h =>
    revert k
    decide
  | @upper k h =>
    revert k
    decide

/-- A digit of a run stands for its distance from the first one, and for what that one stands
for. -/
theorem exists_of_run {first last : Char} (start : Nat) {offset : Nat}
    (hfirst : first.toNat = offset + start) (hc : first ≤ c ∧ c ≤ last)
    (h : some (UInt8.ofNat (c.toNat - offset)) = some v) :
    ∃ k ≤ last.toNat - first.toNat, Char.ofNat (first.toNat + k) = c ∧
      v = UInt8.ofNat (start + k) := by
  have hle : first.toNat ≤ c.toNat := UInt32.le_iff_toNat_le.1 hc.1
  have hlast : c.toNat ≤ last.toNat := UInt32.le_iff_toNat_le.1 hc.2
  refine ⟨c.toNat - first.toNat, Nat.sub_le_sub_right hlast _, ?_, ?_⟩
  · rw [Nat.add_sub_cancel' hle, Char.ofNat_toNat]
  · have hvalue : start + (c.toNat - first.toNat) = c.toNat - offset := by omega
    rw [hvalue]
    exact (Option.some.inj h).symm

theorem exists_hexDigit_of_hexValue? (h : hexValue? c = some v) :
    ∃ n, HexDigit c n ∧ v = UInt8.ofNat n := by
  unfold hexValue? at h
  split at h
  next hc =>
    obtain ⟨k, hk, heq, hv⟩ := exists_of_run 0 rfl hc h
    rw [Nat.zero_add] at hv
    exact ⟨k, heq ▸ HexDigit.decimal (Nat.lt_succ_of_le hk), hv⟩
  next =>
    split at h
    next hc =>
      obtain ⟨k, hk, heq, hv⟩ := exists_of_run 10 rfl hc h
      exact ⟨10 + k, heq ▸ HexDigit.lower (Nat.lt_succ_of_le hk), hv⟩
    next =>
      split at h
      next hc =>
        obtain ⟨k, hk, heq, hv⟩ := exists_of_run 10 rfl hc h
        exact ⟨10 + k, heq ▸ HexDigit.upper (Nat.lt_succ_of_le hk), hv⟩
      next => cases h

theorem not_isBlank_of_not_isSpace (h : Text.isSpace c = false) : Text.isBlank c = false := by
  cases hblank : Text.isBlank c
  · rfl
  · simp [Text.isSpace, hblank] at h

theorem ofNat_sixteen_mul_add (high low : Nat) :
    UInt8.ofNat (16 * high + low) = 16 * UInt8.ofNat high + UInt8.ofNat low := by
  rw [UInt8.ofNat_add, UInt8.ofNat_mul]
  rfl

/-- The bytes that a text denotes are read. -/
theorem Denotes.ofHexOnto (h : Denotes t bs) (done : Bytes) :
    ofHexOnto done t.chars = some (done.reverse ++ bs) := by
  induction h generalizing done with
  | nil => rw [List.append_nil]; rfl
  | @cons c d high low t bs hc hd _ ih =>
    have hblank := not_isBlank_of_not_isSpace hc.read.2
    have hchars :
        Text.chars (CodePoint.ofChar c :: CodePoint.ofChar d :: t) = c :: d :: t.chars := by
      simp [Text.chars]
    rw [hchars, Bytes.ofHexOnto, hblank, if_neg Bool.false_ne_true, hc.read.1, hd.read.1]
    dsimp only
    rw [← ofNat_sixteen_mul_add, ih, List.reverse_cons, List.append_assoc]
    rfl

theorem Denotes.ofHex? (h : Denotes t bs) : ofHex? t = some bs := h.ofHexOnto []

theorem Denotes.unique (h : Denotes t bs) (h' : Denotes t bs') : bs = bs' :=
  Option.some.inj (h.ofHex?.symm.trans h'.ofHex?)

/-- A text without blanks that can be read denotes some bytes. -/
theorem exists_denotes {done : Bytes} : {t : Text} →
    (hblank : ∀ p ∈ t, Text.isBlank p.toChar = false) →
    (hread : (ofHexOnto done t.chars).isSome) → ∃ bs, Denotes t bs
  | [], _, _ => ⟨[], .nil⟩
  | [p], hblank, hread => by
    have hp := hblank p List.mem_cons_self
    simp [Text.chars, ofHexOnto, hp] at hread
  | p :: q :: t, hblank, hread => by
    have hp := hblank p List.mem_cons_self
    -- a half of a pair is read as a character that is no digit
    have hchar {p : CodePoint} {v : UInt8} (h : hexValue? p.toChar = some v) :
        p = CodePoint.ofChar p.toChar := by
      refine CodePoint.eq_ofChar rfl fun hreplaced => ?_
      have hnone : hexValue? '\ufffd' = none := by decide
      rw [hreplaced, hnone] at h
      cases h
    have hchars : Text.chars (p :: q :: t) = p.toChar :: q.toChar :: Text.chars t := rfl
    rw [hchars, ofHexOnto, hp, if_neg Bool.false_ne_true] at hread
    split at hread
    next high low hhigh hlow =>
      obtain ⟨m, hm, -⟩ := exists_hexDigit_of_hexValue? hhigh
      obtain ⟨n, hn, -⟩ := exists_hexDigit_of_hexValue? hlow
      obtain ⟨bs, hbs⟩ := exists_denotes (fun r hr => hblank r (by simp [hr])) hread
      rw [hchar hhigh, hchar hlow]
      exact ⟨_, .cons hm hn hbs⟩
    next => cases hread

/-- The texts that denote bytes are those of an even number of digits. -/
theorem exists_denotes_iff : {t : Text} →
    ((∃ bs, Denotes t bs) ↔ t.length % 2 = 0 ∧ ∀ p ∈ t, IsHexDigit p)
  | [] => ⟨fun _ => ⟨rfl, by simp⟩, fun _ => ⟨[], .nil⟩⟩
  | [p] => ⟨fun ⟨_, h⟩ => (by cases h), fun h => absurd h.1 Nat.one_ne_zero⟩
  | p :: q :: t => by
    have hlength : (p :: q :: t).length % 2 = t.length % 2 := Nat.add_mod_right t.length 2
    rw [hlength, List.forall_mem_cons, List.forall_mem_cons]
    constructor
    · rintro ⟨_, h⟩
      cases h with
      | cons hc hd h =>
        obtain ⟨heven, hdigits⟩ := exists_denotes_iff.1 ⟨_, h⟩
        exact ⟨heven, ⟨_, _, rfl, hc⟩, ⟨_, _, rfl, hd⟩, hdigits⟩
    · rintro ⟨heven, ⟨c, _, rfl, hc⟩, ⟨d, _, rfl, hd⟩, hdigits⟩
      obtain ⟨bs, h⟩ := exists_denotes_iff.2 ⟨heven, hdigits⟩
      exact ⟨_, .cons hc hd h⟩

/-- The test for the strict form lets through exactly the texts that denote bytes. -/
theorem isHexText_iff : isHexText t = true ↔ ∃ bs, Denotes t bs := by
  have hspaces : (!t.chars.any Text.isSpace) = true ↔ ∀ p ∈ t, Text.isSpace p.toChar = false := by
    rw [Bool.not_eq_true', List.any_eq_false, Text.chars, List.forall_mem_map]
    simp only [Bool.not_eq_true]
  rw [isHexText, Bool.and_eq_true, Bool.and_eq_true, beq_iff_eq, hspaces]
  constructor
  · rintro ⟨⟨-, hspace⟩, hread⟩
    exact exists_denotes (fun p hp => not_isBlank_of_not_isSpace (hspace p hp)) hread
  · rintro ⟨bs, h⟩
    obtain ⟨heven, hdigits⟩ := exists_denotes_iff.1 ⟨bs, h⟩
    refine ⟨⟨heven, fun p hp => ?_⟩, by rw [h.ofHex?]; rfl⟩
    obtain ⟨c, n, rfl, hc⟩ := hdigits p hp
    rw [CodePoint.toChar_ofChar]
    exact hc.read.2

/-- The text of a byte string denotes it. -/
theorem denotes_hex (bs : Bytes) : Denotes bs.hex bs := by
  rw [Text.ofString, toList_hex]
  induction bs with
  | nil => exact .nil
  | cons b bs ih =>
    obtain ⟨high, hhigh, heq⟩ := exists_hexDigit_of_hexValue? (hexValue?_hexDigit (shiftRight_lt b))
    obtain ⟨low, hlow, heq'⟩ := exists_hexDigit_of_hexValue? (hexValue?_hexDigit (and_lt b))
    have hb : UInt8.ofNat (16 * high + low) = b := by
      rw [ofNat_sixteen_mul_add, ← heq, ← heq', sixteen_mul_add]
    have hcons := Denotes.cons hhigh hlow ih
    rwa [hb] at hcons

end

end PartialTx.Bytes
