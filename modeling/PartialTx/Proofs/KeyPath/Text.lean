import Mathlib.Data.Nat.Digits.Defs
import PartialTx.KeyPath.Text
import PartialTx.Proofs.Outcome

/-! Paths as text. A path of numbers that is written with either mark of hardened levels
reads back as it was, so that no two of them have the same text. -/

namespace PartialTx

/-! ### Numerals -/

namespace Text

theorem decimal_eq (digits : List Char) : decimal digits = Nat.ofDigitChars 10 digits 0 :=
  Nat.ofDigitChars_eq_foldl.symm

theorem decimal_toDigits (n : Nat) : decimal (Nat.toDigits 10 n) = n := by
  rw [decimal_eq, Nat.ofDigitChars_ten_toDigits]

theorem isDigit_of_mem_toDigits {n : Nat} {c : Char} (h : c ∈ Nat.toDigits 10 n) : isDigit c :=
  Nat.isDigit_of_mem_toDigits (by decide) (by decide) h

/-! ### Separators -/

theorem split_eq_splitOn (separator : CodePoint) (t : Text) :
    split separator t = t.splitOn separator := by
  induction t with
  | nil => rfl
  | cons p rest ih =>
    rw [split, List.splitOn_cons_eq_if_modifyHead, ih]
    by_cases hp : p = separator
    · rw [if_pos hp, if_pos (beq_iff_eq.2 hp)]
    · rw [if_neg hp, if_neg fun h => hp (beq_iff_eq.1 h)]
      rcases hrest : rest.splitOn separator with _ | ⟨piece, pieces⟩
      · exact absurd hrest (List.splitOn_ne_nil separator rest)
      · rfl

/-- The pieces that are not empty. -/
theorem filter_split (separator : CodePoint) (t : Text) :
    (split separator t).filter (!·.isEmpty) = (t.splitOn separator).filter (· ≠ []) := by
  rw [split_eq_splitOn]
  congr 1
  funext piece
  cases piece <;> rfl

end Text

namespace KeyPath

/-! ### Levels -/

/-- The two marks of a hardened level. -/
def marks : List Char := [Text.apostrophe, 'h']

/-- Some digits as a level. -/
def digitsText (digits : List Char) : Text := digits.map CodePoint.ofChar

theorem numberText_eq (n : Nat) : numberText n = digitsText (Nat.toDigits 10 n) := by
  rw [numberText, Nat.toString_eq_ofList_toDigits, Text.ofString, String.toList_ofList, digitsText]

section
variable {digits : List Char} {mark : Char}

theorem chars_digitsText (digits : List Char) : Text.chars (digitsText digits) = digits := by
  simp [Text.chars, digitsText, Function.comp_def]

theorem isMarked_digitsText (h : ∀ c ∈ digits, Text.isDigit c) :
    isMarked (digitsText digits) = false := by
  rw [isMarked, digitsText, List.getLast?_map]
  rcases hlast : digits.getLast? with _ | c
  · rfl
  · have hc := h c (List.mem_of_getLast? hlast)
    simp only [Option.map_some, Option.any_some, CodePoint.toChar_ofChar, Bool.or_eq_false_iff]
    constructor <;> refine beq_eq_false_iff_ne.2 ?_ <;> rintro rfl <;> exact absurd hc (by decide)

theorem isMarked_append (hm : mark ∈ marks) (level : Text) :
    isMarked (level ++ [CodePoint.ofChar mark]) = true := by
  rw [isMarked, List.getLast?_concat, Option.any_some, CodePoint.toChar_ofChar, Bool.or_eq_true,
    beq_iff_eq, beq_iff_eq]
  simpa [marks] using hm

/-- Digits denote the number they stand for, and with a mark behind them the hardened one. -/
theorem ofLevel_digitsText (hd : ∀ c ∈ digits, Text.isDigit c) (hne : digits ≠ [])
    (hlen : digits.length ≤ Text.maxDigits) (hlt : Text.decimal digits < ChildIndex.hardened)
    (hm : mark ∈ marks) :
    ofLevel (digitsText digits) = .ok (UInt32.ofNat (Text.decimal digits)) ∧
      ofLevel (digitsText digits ++ [CodePoint.ofChar mark]) =
        .ok (UInt32.ofNat (Text.decimal digits + ChildIndex.hardened)) := by
  have hall : digits.all Text.isDigit = true := List.all_eq_true.2 hd
  have hempty : digits.isEmpty = false := List.isEmpty_eq_false_iff.2 hne
  simp [ofLevel, isMarked_digitsText hd, isMarked_append hm, chars_digitsText, hall, hempty,
    Nat.not_lt.2 hlen, Nat.not_le.2 hlt]

end

/-- A number that is written as a level reads back as it was. -/
theorem ofLevel_levelText {mark : Char} (hm : mark ∈ marks) (n : UInt32) :
    ofLevel (levelText [CodePoint.ofChar mark] (.index n)) = .ok n := by
  have hread {k : Nat} (hk : k < ChildIndex.hardened) :=
    ofLevel_digitsText (fun _ => Text.isDigit_of_mem_toDigits (n := k)) Nat.toDigits_ne_nil
      (Nat.le_trans (Nat.toDigits_length 10 k 10 (by decide) (Nat.lt_trans hk (by decide)))
        (by decide))
      (by rwa [Text.decimal_toDigits]) hm
  have hn := n.toNat_lt
  rw [levelText]
  split
  next hhard =>
    have hk : n.toNat - ChildIndex.hardened < ChildIndex.hardened := by
      have : ChildIndex.hardened + ChildIndex.hardened = 2 ^ 32 := rfl
      omega
    rw [numberText_eq, (hread hk).2, Text.decimal_toDigits, Nat.sub_add_cancel hhard,
      UInt32.ofNat_toNat]
  next hsoft =>
    rw [numberText_eq, (hread (Nat.lt_of_not_le hsoft)).1, Text.decimal_toDigits,
      UInt32.ofNat_toNat]

/-! ### Whole paths -/

/-- Some digits as a level are not empty and hold no slash. -/
theorem digitsText_spec {digits : List Char} (hd : ∀ c ∈ digits, Text.isDigit c)
    (hne : digits ≠ []) : digitsText digits ≠ [] ∧ CodePoint.ofChar '/' ∉ digitsText digits := by
  refine ⟨fun h => hne (List.map_eq_nil_iff.1 h), fun h => ?_⟩
  obtain ⟨c, hc, hslash⟩ := List.mem_map.1 h
  have hchar := congrArg CodePoint.toChar hslash
  rw [CodePoint.toChar_ofChar, CodePoint.toChar_ofChar] at hchar
  exact absurd (hd '/' (hchar ▸ hc)) (by decide)

/-- A mark behind a level keeps both. -/
theorem marked_spec {mark : Char} (hm : mark ∈ marks) {level : Text}
    (h : level ≠ [] ∧ CodePoint.ofChar '/' ∉ level) :
    level ++ [CodePoint.ofChar mark] ≠ [] ∧
      CodePoint.ofChar '/' ∉ level ++ [CodePoint.ofChar mark] := by
  refine ⟨List.append_ne_nil_of_left_ne_nil h.1 _, fun hmem => ?_⟩
  rcases List.mem_append.1 hmem with hmem | hmem
  · exact h.2 hmem
  · revert hmem
    obtain rfl | rfl : mark = Text.apostrophe ∨ mark = 'h' := by simpa [marks] using hm
    all_goals decide

/-- A level as it is written is not empty and holds no slash. -/
theorem levelText_spec {mark : Char} (hm : mark ∈ marks) (i : ChildIndex) :
    levelText [CodePoint.ofChar mark] i ≠ [] ∧
      CodePoint.ofChar '/' ∉ levelText [CodePoint.ofChar mark] i := by
  have hdigits (n : Nat) : numberText n ≠ [] ∧ CodePoint.ofChar '/' ∉ numberText n :=
    numberText_eq n ▸
      digitsText_spec (fun _ => Text.isDigit_of_mem_toDigits) Nat.toDigits_ne_nil
  cases i with
  | flag b =>
    rw [levelText]
    cases b <;> decide
  | index n =>
    rw [levelText]
    split
    · exact marked_spec hm (hdigits _)
    · exact hdigits _

/-- Levels between slashes, behind an `m`, come apart again. -/
theorem levels_join {ls : List Text}
    (h : ∀ level ∈ ls, level ≠ [] ∧ CodePoint.ofChar '/' ∉ level) :
    levels (List.intercalate "/" ("m" :: ls)) = ls := by
  let pieces : List Text := "m" :: ls
  have hpieces : ∀ piece ∈ pieces, piece ≠ [] ∧ CodePoint.ofChar '/' ∉ piece :=
    List.forall_mem_cons.2 ⟨by decide, h⟩
  have hsplit : Text.split '/' (List.intercalate (Text.ofString "/") pieces) = pieces := by
    rw [Text.split_eq_splitOn]
    exact List.splitOn_intercalate _ (fun piece hp => (hpieces piece hp).2) (List.cons_ne_nil _ _)
  have hfilter : pieces.filter (!·.isEmpty) = pieces :=
    List.filter_eq_self.2 fun piece hp => by simp [(hpieces piece hp).1]
  rw [levels, hsplit, hfilter]
  exact if_pos rfl

theorem levels_toText {mark : Char} (hm : mark ∈ marks) (p : KeyPath) :
    levels (toText [CodePoint.ofChar mark] p) = p.map (levelText [CodePoint.ofChar mark]) :=
  levels_join (List.forall_mem_map.2 fun i _ => levelText_spec hm i)

/-- A path of numbers reads back as it was written, with either mark. -/
theorem ofText_toText {mark : Char} (hm : mark ∈ marks) (ns : List UInt32) :
    ofText (toText [CodePoint.ofChar mark] (ofNumbers ns)) = .ok ns := by
  rw [ofText, levels_toText hm, ofNumbers, List.map_map]
  exact mapM_map_eq_ok fun n _ => ofLevel_levelText hm n

theorem toText_inj {mark : Char} (hm : mark ∈ marks) {ns ns' : List UInt32}
    (h : toText [CodePoint.ofChar mark] (ofNumbers ns) =
      toText [CodePoint.ofChar mark] (ofNumbers ns')) : ns = ns' := by
  have hread := ofText_toText hm ns
  rw [h, ofText_toText hm] at hread
  exact (Except.ok.inj hread).symm

end KeyPath

end PartialTx
