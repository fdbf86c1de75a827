import PartialTx.Proofs.Bytes.Hex
import PartialTx.Proofs.Output.Grammar

/-! Maps that are given as text. A text of hexadecimal digits, two for each byte, is decoded as the
bytes it denotes are, under whatever settings. Every other text is refused before the settings are
looked at, also one that differs by no more than a blank. -/

namespace PartialTx.Output

open PartialTx.Bytes (Denotes IsHexDigit isHexText isHexText_iff exists_denotes_iff denotes_hex)

variable {t : Text} {bs : Bytes}

theorem mapOfValue_of_denotes (h : Denotes t bs) : mapOfValue (.text t) = .ok bs := by
  rw [mapOfValue, if_pos (isHexText_iff.2 ⟨bs, h⟩), Value.toBytes, h.ofHex?]
  rfl

theorem mapOfValue_of_not_isHexText (h : isHexText t = false) :
    mapOfValue (.text t) = .error .notMapText := by
  rw [mapOfValue, h, if_neg Bool.false_ne_true]

theorem decode_of_denotes (s : Settings) (maxValue : Value) (h : Denotes t bs) :
    decode s maxValue (.text t) = decode s maxValue (.bytes bs) := by
  rw [decode, mapOfValue_of_denotes h]
  rfl

/-- A text is taken as a map exactly if it is made of an even number of hexadecimal digits, in
either case. It then denotes one byte string, and decoding either comes to the same, its lines for
the log included; the text of a byte string denotes it. Every other text is a bad value, whatever
the settings. -/
theorem decode_text (s : Settings) (maxValue : Value) (t : Text) :
    (isHexText t = true ↔ t.length % 2 = 0 ∧ ∀ p ∈ t, IsHexDigit p) ∧
    (isHexText t = true → ∃ bs, (∀ bs', Denotes t bs' ↔ bs' = bs) ∧
      decode s maxValue (.text t) = decode s maxValue (.bytes bs)) ∧
    (isHexText t = false → decode s maxValue (.text t) = (.error .notMapText, []) ∧
      Fault.notMapText.kind = .badValue) ∧
    ∀ raw : Bytes, Denotes raw.hex raw ∧ isHexText raw.hex = true ∧
      decode s maxValue (.text raw.hex) = decode s maxValue (.bytes raw) := by
  refine ⟨isHexText_iff.trans exists_denotes_iff, fun h => ?_, fun h => ⟨?_, rfl⟩, fun raw => ?_⟩
  · obtain ⟨bs, hbs⟩ := isHexText_iff.1 h
    refine ⟨bs, fun bs' => ⟨fun h' => h'.unique hbs, ?_⟩, decode_of_denotes s maxValue hbs⟩
    rintro rfl
    exact hbs
  · rw [decode, mapOfValue_of_not_isHexText h]
  · have hraw := denotes_hex raw
    exact ⟨hraw, isHexText_iff.2 ⟨raw, hraw⟩, decode_of_denotes s maxValue hraw⟩

/-- The separator in digits of both cases is the map of a record without fields. With a blank
behind it, it is no map. -/
theorem decode_text_of_separator :
    (decode .builtIn (.int 9) (.text "fF")).1 = .ok {} ∧
      decode .builtIn (.int 9) (.text "fF ") = (.error .notMapText, []) := by
  obtain ⟨-, hdigits, -, -⟩ := decode_text .builtIn (.int 9) "fF"
  obtain ⟨-, -, hblank, -⟩ := decode_text .builtIn (.int 9) "fF "
  obtain ⟨bs, hbs, hsame⟩ := hdigits (by decide)
  have hdenotes : Denotes "fF" [0xff] :=
    .cons (.lower (by decide : 5 < 6)) (.upper (by decide : 5 < 6)) .nil
  obtain rfl := (hbs _).1 hdenotes
  refine ⟨?_, (hblank (by decide)).1⟩
  rw [hsame, decode_of_allows allows_builtIn]
  exact (ofBytes_eq_ok_iff (by decide) (by decide)).2 ⟨[], rfl, by simp, rfl⟩

end PartialTx.Output
