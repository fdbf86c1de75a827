import PartialTx.Proofs.KeyPath.Levels

/-! Canonical texts of paths: `m` alone, or levels behind `m/` that have no zeros in front and
no mark but the apostrophe. Numbers written as a text read back as they were. A text that can
be read is written back in the canonical form of the same path, and it stays the same text
exactly if it was canonical. -/

namespace PartialTx

namespace KeyPath

/-! ### Canonical levels -/

/-- The digits of a number, with no zero in front of others. -/
structure Shown (digits : List Char) : Prop where
  isDigit : ∀ c ∈ digits, Text.isDigit c
  ne_nil : digits ≠ []
  shortest : Text.Shortest digits

inductive CanonicalLevel : Text → Prop
  | plain {digits : List Char} (h : Shown digits) : CanonicalLevel (digitsText digits)
  | hardened {digits : List Char} (h : Shown digits) :
    CanonicalLevel (digitsText digits ++ usualMark)

theorem shown_toDigits (n : Nat) : Shown (Nat.toDigits 10 n) where
  isDigit _ := Text.isDigit_of_mem_toDigits
  ne_nil := Nat.toDigits_ne_nil
  shortest := Text.shortest_toDigits n

theorem Shown.numberText_decimal {digits : List Char} (h : Shown digits) :
    numberText (Text.decimal digits) = digitsText digits := by
  rw [numberText_eq, Text.toDigits_decimal h.isDigit h.ne_nil h.shortest]

theorem apostrophe_mem_marks : Text.apostrophe ∈ marks := by decide

theorem canonicalLevel_levelText (n : UInt32) :
    CanonicalLevel (levelText usualMark (.index n)) := by
  rw [levelText]
  split
  · rw [numberText_eq]
    exact .hardened (shown_toDigits _)
  · rw [numberText_eq]
    exact .plain (shown_toDigits _)

theorem CanonicalLevel.spec {level : Text} (h : CanonicalLevel level) :
    level ≠ [] ∧ CodePoint.ofChar '/' ∉ level := by
  cases h with
  | plain h => exact digitsText_spec h.isDigit h.ne_nil
  | hardened h => exact marked_spec apostrophe_mem_marks (digitsText_spec h.isDigit h.ne_nil)

section
variable {k : Nat} (hk : k < ChildIndex.hardened)
include hk

theorem levelText_ofNat (mark : Text) : levelText mark (.index (UInt32.ofNat k)) = numberText k := by
  have hlt : k < UInt32.size := Nat.lt_trans hk (by decide)
  rw [levelText, UInt32.toNat_ofNat_of_lt' hlt, if_neg (Nat.not_le.2 hk)]

theorem levelText_ofNat_add (mark : Text) :
    levelText mark (.index (UInt32.ofNat (k + ChildIndex.hardened))) = numberText k ++ mark := by
  have hlt : k + ChildIndex.hardened < UInt32.size := Nat.add_lt_add_right hk ChildIndex.hardened
  rw [levelText, UInt32.toNat_ofNat_of_lt' hlt, if_pos (Nat.le_add_left ..), Nat.add_sub_cancel]

end

/-- A canonical level is the one that is written for the number it denotes. -/
theorem CanonicalLevel.levelText_eq {level : Text} (hc : CanonicalLevel level) {n : UInt32}
    (h : ofLevel level = .ok n) : levelText usualMark (.index n) = level := by
  obtain ⟨hnum, rfl⟩ := ofLevel_eq_ok rfl h
  cases hc with
  | plain hs =>
    simp only [isMarked_digitsText hs.isDigit, Bool.false_eq_true, if_false,
      chars_digitsText] at hnum ⊢
    rw [levelText_ofNat hnum.lt_hardened, hs.numberText_decimal]
  | @hardened digits hs =>
    have hmark := isMarked_append apostrophe_mem_marks (digitsText digits)
    simp only [usualMark, hmark, if_true, List.dropLast_concat, chars_digitsText] at hnum ⊢
    rw [levelText_ofNat_add hnum.lt_hardened, hs.numberText_decimal]

/-! ### Canonical texts -/

inductive Canonical : Text → Prop
  | root : Canonical "m"
  | path {ls : List Text} (hne : ls ≠ []) (h : ∀ level ∈ ls, CanonicalLevel level) :
    Canonical ("m/" ++ List.intercalate "/" ls)

theorem canonical_iff {t : Text} :
    Canonical t ↔ ∃ ls : List Text, (∀ level ∈ ls, CanonicalLevel level) ∧
      t = List.intercalate "/" ("m" :: ls) := by
  constructor
  · intro h
    cases h with
    | root => exact ⟨[], List.forall_mem_nil _, rfl⟩
    | @path ls hne h =>
      refine ⟨ls, h, ?_⟩
      cases ls with
      | nil => exact absurd rfl hne
      | cons level ls => rfl
  · rintro ⟨ls, h, rfl⟩
    cases ls with
    | nil => exact .root
    | cons level ls => exact Canonical.path (List.cons_ne_nil level ls) h

theorem canonical_toText (ns : List UInt32) : Canonical (toText usualMark (ofNumbers ns)) := by
  refine canonical_iff.2 ⟨(ofNumbers ns).map (levelText usualMark), ?_, rfl⟩
  rw [ofNumbers, List.map_map]
  exact List.forall_mem_map.2 fun n _ => canonicalLevel_levelText n

theorem map_levelText_eq {ls : List Text} {ns : List UInt32}
    (h : List.Forall₂ (fun level n => ofLevel level = .ok n) ls ns)
    (hc : ∀ level ∈ ls, CanonicalLevel level) :
    (ofNumbers ns).map (levelText usualMark) = ls := by
  induction h with
  | nil => rfl
  | cons hn _ ih =>
    rw [List.forall_mem_cons] at hc
    rw [ofNumbers, List.map_cons, List.map_cons, hc.1.levelText_eq hn, ← ofNumbers, ih hc.2]

/-- What is written for the numbers in a text is that text exactly if it is canonical. -/
theorem toText_eq_iff {t : Text} {ns : List UInt32} (h : ofText t = .ok ns) :
    toText usualMark (ofNumbers ns) = t ↔ Canonical t := by
  constructor
  · rintro rfl
    exact canonical_toText ns
  · intro hc
    obtain ⟨ls, hls, rfl⟩ := canonical_iff.1 hc
    rw [ofText, levels_join fun level hl => (hls level hl).spec, mapM_eq_ok_iff] at h
    rw [toText, map_levelText_eq h hls]

/-! ### There and back -/

theorem textOfValue_list (mark : Text) (p : KeyPath) :
    textOfValue (.text mark) (.list (p.map ChildIndex.toValue)) = .ok (toText mark p) := by
  have hlevels : (p.map ChildIndex.toValue).mapM (levelTextOfValue (.text mark)) =
      .ok (p.map (levelText mark)) := by
    refine mapM_map_eq_ok_map fun i _ => ?_
    rw [levelTextOfValue, checkLevel, ChildIndex.ofValue?_toValue]
    rfl
  simp only [textOfValue, Value.elements, bind, Except.bind, hlevels]
  rfl

/-- Plain numbers as a text. -/
def textOfNumbers (mark : Char) (ns : List UInt32) : Except Fault Text :=
  textOfValue (.text [CodePoint.ofChar mark]) (.list (ns.map fun n => .int n.toNat))

/-- The text of the path that is read from a text. -/
def rewritten (t : Text) : Except Fault Text := do
  textOfNumbers Text.apostrophe (← ofTextValue (.text t))

theorem textOfNumbers_eq (mark : Char) (ns : List UInt32) :
    textOfNumbers mark ns = .ok (toText [CodePoint.ofChar mark] (ofNumbers ns)) := by
  rw [← textOfValue_list, ofNumbers, List.map_map]
  rfl

theorem rewritten_eq {t : Text} {ns : List UInt32} (h : ofTextValue (.text t) = .ok ns) :
    rewritten t = .ok (toText usualMark (ofNumbers ns)) := by
  rw [rewritten, h]
  exact textOfNumbers_eq Text.apostrophe ns

/-- Numbers come back from their text, with either mark; and a text that can be read is written
back in the one canonical form of its path, which is kept from then on. -/
theorem conversions_cancel :
    (∀ mark ∈ marks, ∀ ns : List UInt32, ∃ t, textOfNumbers mark ns = .ok t ∧
      ofTextValue (.text t) = .ok ns) ∧
    ∀ (t : Text) (ns : List UInt32), ofTextValue (.text t) = .ok ns →
      ∃ c, rewritten t = .ok c ∧ Canonical c ∧ ofTextValue (.text c) = .ok ns ∧
        rewritten c = .ok c ∧ (c = t ↔ Canonical t) := by
  have hback (mark : Char) (hm : mark ∈ marks) (ns : List UInt32) :
      ofTextValue (.text (toText [CodePoint.ofChar mark] (ofNumbers ns))) = .ok ns :=
    ofText_toText hm ns
  constructor
  · intro mark hm ns
    exact ⟨_, textOfNumbers_eq mark ns, hback mark hm ns⟩
  · intro t ns ht
    have hc := hback Text.apostrophe apostrophe_mem_marks ns
    exact ⟨_, rewritten_eq ht, canonical_toText ns, hc, rewritten_eq hc, toText_eq_iff ht⟩

/-- A text without the leading `m`, with an `h`, an empty level and a zero in front. -/
theorem conversions_cancel_84h :
    'h' ∈ marks ∧ ofTextValue (.text "84h//07") = .ok [0x80000054, 7] ∧
      (∃ t, textOfNumbers 'h' [0x80000054, 7] = .ok t ∧
        ofTextValue (.text t) = .ok [0x80000054, 7]) ∧
      ∃ c, rewritten "84h//07" = .ok c ∧ Canonical c ∧ ofTextValue (.text c) = .ok [0x80000054, 7] ∧
        rewritten c = .ok c ∧ (c = "84h//07" ↔ Canonical "84h//07") := by
  have hm : 'h' ∈ marks := by decide
  have hread : ofTextValue (.text "84h//07") = .ok [0x80000054, 7] := by rfl
  exact ⟨hm, hread, conversions_cancel.1 'h' hm _, conversions_cancel.2 _ _ hread⟩

example : rewritten "84h//07" = .ok "m/84'/7" := by cbv

end KeyPath

end PartialTx
