import Mathlib.Data.List.Basic
import Mathlib.Data.List.Induction
import PartialTx.Proofs.KeyPath.Text

/-! Which texts are levels of a path. A level spells a number in decimal digits, or a
hardened one with a mark behind them. A number may have zeros in front; without them, and
with the usual mark, its spelling is the one that is written. -/

namespace PartialTx

/-! ### Shortest numerals -/

namespace Text

/-- No zero stands in front of other digits. -/
def Shortest (digits : List Char) : Prop := digits.head? = some '0' → digits = ['0']

theorem decimal_append (digits : List Char) (c : Char) :
    decimal (digits ++ [c]) = 10 * decimal digits + digitValue c := by
  simp [decimal]

theorem digitValue_lt {c : Char} (h : isDigit c) : digitValue c < 10 := by
  simp only [isDigit, Bool.and_eq_true, decide_eq_true_eq] at h
  have hle : c.toNat ≤ 57 := h.2
  simp only [digitValue]
  omega

theorem toDigits_digitValue {c : Char} (h : isDigit c) : Nat.toDigits 10 (digitValue c) = [c] := by
  have hlt := digitValue_lt h
  simp only [isDigit, Bool.and_eq_true, decide_eq_true_eq] at h
  have hge : 48 ≤ c.toNat := h.1
  rw [Nat.toDigits_of_lt_base hlt]
  congr 1
  apply Char.toNat_inj.1
  rw [Nat.toNat_digitChar_of_lt_ten hlt, digitValue]
  omega

theorem head?_toDigits_ne {n : Nat} (h : 0 < n) : (Nat.toDigits 10 n).head? ≠ some '0' := by
  induction n using Nat.strongRecOn with
  | ind n ih =>
    rw [Nat.toDigits_eq_if (by decide)]
    split
    next hlt => simp; omega
    next hge =>
      rw [List.head?_append_of_ne_nil _ Nat.toDigits_ne_nil]
      exact ih (n / 10) (by omega) (by omega)

theorem shortest_toDigits (n : Nat) : Shortest (Nat.toDigits 10 n) := by
  intro h
  rcases Nat.eq_zero_or_pos n with rfl | hpos
  · rfl
  · exact absurd h (head?_toDigits_ne hpos)

/-- A number has one shortest numeral. -/
theorem toDigits_decimal {digits : List Char} (hd : ∀ c ∈ digits, isDigit c) (hne : digits ≠ [])
    (hs : Shortest digits) : Nat.toDigits 10 (decimal digits) = digits := by
  -- A value grows at its last digit, so the induction takes digits off there.
  induction digits using List.reverseRecOn with
  | nil => exact absurd rfl hne
  | append_singleton ds c ih =>
    have hc : isDigit c := hd c (by simp)
    rw [decimal_append]
    by_cases hnil : ds = []
    · subst hnil
      simpa [decimal] using toDigits_digitValue hc
    · have hhead : ds.head? ≠ some '0' := by
        intro h
        have := hs (by rw [List.head?_append_of_ne_nil _ hnil, h])
        simp [List.append_eq_singleton_iff, hnil] at this
      have hds := ih (fun d hmem => hd d (by simp [hmem])) hnil (fun h => absurd h hhead)
      have hpos : 0 < decimal ds := by
        apply Nat.pos_of_ne_zero
        intro hzero
        rw [hzero] at hds
        exact hhead (by rw [← hds]; rfl)
      rw [← Nat.toDigits_append_toDigits (by decide) hpos (digitValue_lt hc), hds,
        toDigits_digitValue hc]

end Text

namespace KeyPath

open Text (isDigit decimal)

theorem digitsText_chars {t : Text} (h : ∀ c ∈ t.chars, isDigit c) : digitsText t.chars = t := by
  rw [digitsText, Text.chars, List.map_map]
  refine (List.map_congr_left fun p hp => ?_).trans (List.map_id t)
  have hdigit := h p.toChar (List.mem_map_of_mem hp)
  refine (CodePoint.eq_ofChar rfl fun hreplaced => ?_).symm
  rw [hreplaced] at hdigit
  exact absurd hdigit (by decide)

/-! ### Levels -/

/-- Digits that a level may hold. -/
structure Numeral (digits : List Char) : Prop where
  isDigit : ∀ c ∈ digits, isDigit c
  ne_nil : digits ≠ []
  length_le : digits.length ≤ Text.maxDigits
  lt_hardened : decimal digits < ChildIndex.hardened

/-- A level spells a number, which is hardened if there is a mark. -/
inductive Spells : Text → UInt32 → Prop
  | plain {digits : List Char} (h : Numeral digits) :
    Spells (digitsText digits) (UInt32.ofNat (decimal digits))
  | marked {digits : List Char} {mark : Char} (h : Numeral digits) (hm : mark ∈ marks) :
    Spells (digitsText digits ++ [CodePoint.ofChar mark])
      (UInt32.ofNat (decimal digits + ChildIndex.hardened))

theorem isMarked_eq_true_iff {level : Text} :
    isMarked level = true ↔
      ∃ body mark, mark ∈ marks ∧ level = body ++ [CodePoint.ofChar mark] := by
  constructor
  · intro h
    rcases List.eq_nil_or_concat level with rfl | ⟨body, p, rfl⟩
    · simp [isMarked] at h
    · simp only [isMarked, List.concat_eq_append, List.getLast?_concat, Option.any_some,
        Bool.or_eq_true, beq_iff_eq] at h
      have hm : p.toChar ∈ marks := by simpa [marks] using h
      refine ⟨body, p.toChar, hm, ?_⟩
      rw [List.concat_eq_append, ← CodePoint.eq_ofChar rfl]
      rintro hreplaced
      rw [hreplaced] at hm
      exact absurd hm (by decide)
  · rintro ⟨body, mark, hm, rfl⟩
    exact isMarked_append hm body

/-- The digits of a level that is read, and the number that they come to. -/
theorem ofLevel_eq_ok {level : Text} {digits : List Char} {n : UInt32}
    (hdigits : Text.chars (if isMarked level then level.dropLast else level) = digits)
    (h : ofLevel level = .ok n) :
    Numeral digits ∧
      n = UInt32.ofNat (if isMarked level then decimal digits + ChildIndex.hardened
        else decimal digits) := by
  simp only [ofLevel, hdigits] at h
  split at h
  next => cases h
  next hall =>
    split at h
    next => cases h
    next hlen =>
      split at h
      next => cases h
      next hlt =>
        simp only [Bool.or_eq_true, List.isEmpty_iff, Bool.not_eq_true', not_or,
          Bool.not_eq_false, List.all_eq_true] at hall
        exact ⟨⟨hall.2, hall.1, by omega, by omega⟩, (Except.ok.inj h).symm⟩

/-- The levels that can be read are the spellings of numbers. -/
theorem ofLevel_eq_ok_iff {level : Text} {n : UInt32} : ofLevel level = .ok n ↔ Spells level n := by
  constructor
  · intro h
    obtain ⟨hnum, rfl⟩ := ofLevel_eq_ok rfl h
    by_cases hmark : isMarked level
    · obtain ⟨body, mark, hm, rfl⟩ := isMarked_eq_true_iff.1 hmark
      simp only [hmark, if_true, List.dropLast_concat] at hnum ⊢
      have hspelled := Spells.marked hnum hm
      rwa [digitsText_chars hnum.isDigit] at hspelled
    · simp only [hmark, Bool.false_eq_true, if_false] at hnum ⊢
      have hspelled := Spells.plain hnum
      rwa [digitsText_chars hnum.isDigit] at hspelled
  · intro h
    cases h with
    | plain h =>
      have hm : 'h' ∈ marks := by decide
      exact (ofLevel_digitsText h.isDigit h.ne_nil h.length_le h.lt_hardened hm).1
    | marked h hm =>
      exact (ofLevel_digitsText h.isDigit h.ne_nil h.length_le h.lt_hardened hm).2

end KeyPath

end PartialTx
