import Mathlib.Data.Set.List
import PartialTx.Proofs.KeyPath.Levels

/-! The grammar of paths. A text is cut at its slashes; empty parts count for nothing, and
neither does a first `m`. The text can be read exactly if every other part is a level: one to
4300 decimal digits that come to less than the least hardened index, with at most one mark
behind them. What is read has one number a level. Every other text is refused. -/

namespace PartialTx.KeyPath

open Text (decimal)

/-- What stands between slashes, without empty parts and without an `m` in front. -/
def parts (t : Text) : List Text :=
  let named := (t.splitOn (CodePoint.ofChar '/')).filter (· ≠ [])
  if named.head? = some ↑"m" then named.tail else named

/-- A level of a path: the digits of a number, and perhaps a mark that makes it hardened. -/
structure Level where
  digits : List Char
  mark? : Option Char
  numeral : Numeral digits
  mark_mem : ∀ mark ∈ mark?, mark ∈ marks

namespace Level

def text (l : Level) : Text := digitsText l.digits ++ l.mark?.toList.map CodePoint.ofChar

def number (l : Level) : Nat :=
  if l.mark?.isSome then decimal l.digits + ChildIndex.hardened else decimal l.digits

theorem number_lt (l : Level) : l.number < UInt32.size := by
  have hlt := l.numeral.lt_hardened
  have hsize : UInt32.size = ChildIndex.hardened + ChildIndex.hardened := rfl
  unfold number
  split <;> omega

end Level

/-- The spellings of a number are the levels that stand for it. -/
theorem spells_iff {part : Text} {n : UInt32} :
    Spells part n ↔ ∃ l : Level, l.text = part ∧ l.number = n.toNat := by
  have hnum (l : Level) : (UInt32.ofNat l.number).toNat = l.number :=
    UInt32.toNat_ofNat_of_lt' l.number_lt
  constructor
  · intro h
    cases h with
    | @plain digits h =>
      let l : Level := ⟨digits, none, h, by simp⟩
      exact ⟨l, List.append_nil _, (hnum l).symm⟩
    | @marked digits mark h hm =>
      let l : Level := ⟨digits, some mark, h, by simpa using hm⟩
      exact ⟨l, rfl, (hnum l).symm⟩
  · rintro ⟨l, rfl, hn⟩
    obtain rfl : UInt32.ofNat l.number = n := by rw [hn, UInt32.ofNat_toNat]
    obtain ⟨digits, mark?, h, hm⟩ := l
    cases mark? with
    | none => simpa [Level.text, Level.number] using Spells.plain h
    | some mark => exact Spells.marked h (hm mark rfl)

theorem parts_eq (t : Text) : parts t = levels t := by
  simp only [parts, levels, Text.filter_split]
  generalize (t.splitOn (CodePoint.ofChar '/')).filter (· ≠ []) = named
  cases named with
  | nil => rfl
  | cons first rest => simp only [List.head?_cons, List.tail_cons, Option.some_inj]

theorem ofText_eq_ok_iff {t : Text} {ns : List UInt32} :
    ofText t = .ok ns ↔ List.Forall₂ Spells (parts t) ns := by
  simp only [ofText, mapM_eq_ok_iff, ofLevel_eq_ok_iff, parts_eq]

/-! ### Refusal -/

theorem kind_of_ofLevel_error {level : Text} {fault : Fault} (h : ofLevel level = .error fault) :
    fault.kind = .badValue := by
  simp only [ofLevel] at h
  generalize Text.chars (if isMarked level then level.dropLast else level) = digits at h
  split at h
  · cases h
    rfl
  · split at h
    · cases h
      rfl
    · split at h
      · cases h
        rfl
      · cases h

/-- A text is refused for one of its levels. -/
theorem kind_of_ofText_error {t : Text} {fault : Fault} (h : ofText t = .error fault) :
    fault.kind = .badValue := by
  obtain ⟨level, -, hlevel⟩ := exists_of_mapM_error h
  exact kind_of_ofLevel_error hlevel

/-! ### Whole texts -/

/-- Each part of the text is a level. -/
def IsPath (t : Text) : Prop := ∀ part ∈ parts t, ∃ l : Level, l.text = part

theorem isPath_iff {t : Text} : IsPath t ↔ ∃ ls : List Level, ls.map Level.text = parts t := by
  have hrange : parts t ∈ Set.range (List.map Level.text) ↔ IsPath t := by
    rw [Set.range_list_map]
    rfl
  exact hrange.symm

/-- Levels are read as their numbers, one a level and in their order. -/
theorem exists_ofText_of_levels {t : Text} {ls : List Level} (h : ls.map Level.text = parts t) :
    ∃ ns, ofText t = .ok ns ∧ ns.map UInt32.toNat = ls.map Level.number := by
  have hnum (l : Level) : (UInt32.ofNat l.number).toNat = l.number :=
    UInt32.toNat_ofNat_of_lt' l.number_lt
  refine ⟨ls.map fun l => UInt32.ofNat l.number, ofText_eq_ok_iff.2 ?_, ?_⟩
  · rw [← h, List.forall₂_map_left_iff, List.forall₂_map_right_iff, List.forall₂_same]
    intro l _
    exact spells_iff.2 ⟨l, rfl, (hnum l).symm⟩
  · rw [List.map_map]
    apply List.map_congr_left
    intro l _
    exact hnum l

theorem isPath_of_ofText {t : Text} {ns : List UInt32} (h : ofText t = .ok ns) : IsPath t := by
  have hlevels : List.Forall₂ (fun part n => (∃ l : Level, l.text = part) ∧ Spells part n)
      (parts t) ns := by
    apply (ofText_eq_ok_iff.1 h).imp
    intro part n hspells
    obtain ⟨l, hl, -⟩ := spells_iff.1 hspells
    exact ⟨⟨l, hl⟩, hspells⟩
  exact ((List.forall₂_and_left _ _).1 hlevels).1

/-- A text can be read exactly if each of its parts is a level. What is read are the numbers of
the levels, one a level and in their order. Every other text is refused as a bad value. -/
theorem reads_exactly_paths (t : Text) :
    ((∃ ns, ofTextValue (.text t) = .ok ns) ↔ IsPath t) ∧
    (∀ ls : List Level, ls.map Level.text = parts t →
      ∃ ns, ofTextValue (.text t) = .ok ns ∧ ns.map UInt32.toNat = ls.map Level.number) ∧
    (¬ IsPath t → ∃ fault, ofTextValue (.text t) = .error fault ∧ fault.kind = .badValue) := by
  have hiff : (∃ ns, ofText t = .ok ns) ↔ IsPath t := by
    constructor
    · rintro ⟨ns, hns⟩
      exact isPath_of_ofText hns
    · intro h
      obtain ⟨ls, hls⟩ := isPath_iff.1 h
      obtain ⟨ns, hns, -⟩ := exists_ofText_of_levels hls
      exact ⟨ns, hns⟩
  refine ⟨hiff, fun ls hls => exists_ofText_of_levels hls, fun hnot => ?_⟩
  show ∃ fault, ofText t = .error fault ∧ fault.kind = .badValue
  rcases h : ofText t with fault | ns
  · exact ⟨fault, rfl, kind_of_ofText_error h⟩
  · exact absurd (hiff.1 ⟨ns, h⟩) hnot

/-- A text with an empty part and a mark, and one with an `m` behind another level. -/
theorem reads_exactly_paths_84h :
    (∃ ns, ofTextValue (.text "m//84h/0") = .ok ns ∧ ns.map UInt32.toNat = [0x80000054, 0]) ∧
      ∃ fault, ofTextValue (.text "0/m") = .error fault ∧ fault.kind = .badValue := by
  let marked : Level := ⟨['8', '4'], some 'h',
    ⟨by simp [Text.isDigit], by decide, by decide, by decide⟩, by simp [marks]⟩
  let plain : Level := ⟨['0'], none,
    ⟨by simp [Text.isDigit], by decide, by decide, by decide⟩, by simp⟩
  have hparts : [marked, plain].map Level.text = parts "m//84h/0" := by decide
  have hnumbers : [marked, plain].map Level.number = [0x80000054, 0] := by decide
  have hnot : ¬ IsPath "0/m" := by
    rw [← (reads_exactly_paths "0/m").1]
    rintro ⟨ns, hns⟩
    cases hns
  refine ⟨?_, (reads_exactly_paths _).2.2 hnot⟩
  rw [← hnumbers]
  exact (reads_exactly_paths _).2.1 _ hparts

end PartialTx.KeyPath
