import PartialTx.Proofs.CompactSize

/-! Compact sizes as a prefix code. Every whole number below 2 to the 64 has one form,
which is read again whatever follows it. A byte string starts with such a form, or it is
empty, or its first byte is a marker whose word is cut short or holds too small a value;
what reading comes to is told by which of these it is. -/

namespace PartialTx.CompactSize

/-- The markers, with the width of the word behind each and the least value it may hold. -/
inductive Announces : UInt8 → Nat → Nat → Prop
  | two : Announces 0xfd 2 0xfd
  | four : Announces 0xfe 4 0x10000
  | eight : Announces 0xff 8 0x100000000

/-- A marker with fewer bytes behind it than its word has. -/
def CutShort (bs : Bytes) : Prop :=
  ∃ marker tail width least, Announces marker width least ∧ bs = marker :: tail ∧
    tail.length < width

/-- A marker with its whole word behind it, which holds a value below the least one. -/
def TooSmall (bs : Bytes) : Prop :=
  ∃ marker word rest width least, Announces marker width least ∧ bs = marker :: (word ++ rest) ∧
    word.length = width ∧ Bytes.toWord word < least

/-- What a byte string decides that reading comes to. -/
inductive Decides (bs : Bytes) : Except Fault (Option Nat) → Prop
  | ended (h : bs = []) : Decides bs (.ok none)
  | size {n : Nat} {rest : Bytes} (hn : n < Bytes.wordCount 8) (h : bs = encode n ++ rest) :
    Decides bs (.ok (some n))
  | cutShort {fault : Fault} (h : CutShort bs) (hkind : fault.kind = .unexpectedEnd) :
    Decides bs (.error fault)
  | tooSmall {fault : Fault} (h : TooSmall bs) (hkind : fault.kind = .invalidFormat) :
    Decides bs (.error fault)

theorem payload?_eq_some_iff {marker : UInt8} {width least : Nat} :
    payload? marker = some (width, least) ↔ Announces marker width least := by
  constructor
  · intro h
    obtain ⟨rfl, rfl, rfl⟩ | ⟨rfl, rfl, rfl⟩ | ⟨rfl, rfl, rfl⟩ := payload?_eq_some h
    · exact .two
    · exact .four
    · exact .eight
  · intro h
    cases h <;> rfl

/-! ### What a byte string starts with -/

/-- A byte string starts with a form, unless it is empty, cut short or too small. -/
theorem starts_with (bs : Bytes) :
    bs = [] ∨ (∃ n rest, n < Bytes.wordCount 8 ∧ bs = encode n ++ rest) ∨ CutShort bs ∨
      TooSmall bs := by
  rcases bs with _ | ⟨marker, tail⟩
  · exact .inl rfl
  refine .inr ?_
  rcases hp : payload? marker with _ | ⟨width, least⟩
  · obtain ⟨hform, hn⟩ := eq_encode_iff.2 ⟨marker, [], rfl, by rw [hp]; exact ⟨rfl, rfl⟩⟩
    exact .inl ⟨marker.toNat, tail, hn, by rw [← hform]; rfl⟩
  · have hm := payload?_eq_some_iff.1 hp
    by_cases hlen : tail.length < width
    · exact .inr (.inl ⟨marker, tail, width, least, hm, rfl, hlen⟩)
    have hword : (tail.take width).length = width := List.length_take_of_le (by omega)
    have htail : tail.take width ++ tail.drop width = tail := List.take_append_drop width tail
    by_cases hl : Bytes.toWord (tail.take width) < least
    · exact .inr (.inr ⟨marker, _, tail.drop width, width, least, hm, by rw [htail], hword, hl⟩)
    · obtain ⟨hform, hn⟩ := eq_encode_iff.2 ⟨marker, tail.take width, rfl, by
        rw [hp]
        exact ⟨hword, rfl, by omega⟩⟩
      exact .inl ⟨_, tail.drop width, hn, by rw [← hform, List.cons_append, htail]⟩

/-! ### Reading -/

section
variable {s : Stream} (hs : s.Plain)
include hs

theorem run_read_of_nil (hrest : s.rest = []) : (Stream.run read s).1 = .ok none := by
  have hr := Stream.run_read_of_plain hs (n := 1) (by decide)
  rw [hrest] at hr
  rw [read, Stream.run_bind, show Stream.run (Stream.read 1) s = _ from hr]
  rfl

/-- Behind a marker its word is read, and the value in it compared with the least one. -/
theorem run_read_of_marker {marker : UInt8} {tail : Bytes} {width least : Nat}
    (hm : Announces marker width least) (hrest : s.rest = [marker] ++ tail) :
    ∃ u, u.Plain ∧ u.rest = tail ∧ Stream.run read s =
      Stream.run (do
        let size := Bytes.toWord (← Stream.readExactly width)
        if size < least then throw (.longForm marker size) else return some size) u := by
  obtain ⟨u, hu, hadv⟩ := Stream.run_read_one hs hrest
  refine ⟨u, hadv.plain hs, hadv.rest_of_append hrest, ?_⟩
  rw [read, Stream.run_bind, hu]
  simp only [payload?_eq_some_iff.2 hm]

theorem run_read_of_cutShort (h : CutShort s.rest) :
    ∃ fault, (Stream.run read s).1 = .error fault ∧ fault.kind = .unexpectedEnd := by
  obtain ⟨marker, tail, width, least, hm, hrest, hlen⟩ := h
  obtain ⟨u, hu, hurest, hread⟩ := run_read_of_marker hs hm hrest
  have hword := Stream.run_read_of_plain hu (width_lt (payload?_eq_some_iff.2 hm))
  rw [hurest, List.take_of_length_le (Nat.le_of_lt hlen)] at hword
  refine ⟨.shortRead width tail.length, ?_, rfl⟩
  rw [hread, Stream.run_bind, Stream.readExactly, Stream.run_bind, hword]
  simp only [if_neg (Nat.ne_of_lt hlen), Stream.run_throw]

theorem run_read_of_tooSmall (h : TooSmall s.rest) :
    ∃ fault, (Stream.run read s).1 = .error fault ∧ fault.kind = .invalidFormat := by
  obtain ⟨marker, word, rest, width, least, hm, hrest, hlen, hleast⟩ := h
  obtain ⟨u, hu, hurest, hread⟩ := run_read_of_marker hs hm hrest
  obtain ⟨t, ht, -⟩ := (Stream.Reads.readExactly (width_lt (payload?_eq_some_iff.2 hm))).complete
    hu ⟨rfl, hlen⟩ hurest
  refine ⟨.longForm marker (Bytes.toWord word), ?_, rfl⟩
  rw [hread, Stream.run_bind, ht]
  simp only [if_pos hleast, Stream.run_throw]

theorem run_read_of_encode {n : Nat} {rest : Bytes} (hn : n < Bytes.wordCount 8)
    (hrest : s.rest = encode n ++ rest) :
    ∃ t, Stream.run read s = (.ok (some n), t) ∧ Stream.Advance s t (encode n) := by
  obtain ⟨t, ht, hadv⟩ := (reads_readOr .valueLengthMissing).complete hs ⟨rfl, hn⟩ hrest
  exact ⟨t, run_readOr_eq_ok_iff.1 ht, hadv⟩

/-- Reading comes to what the bytes in front decide. -/
theorem decides_run_read : Decides s.rest (Stream.run read s).1 := by
  obtain hrest | ⟨n, rest, hn, hrest⟩ | hcut | hsmall := starts_with s.rest
  · rw [run_read_of_nil hs hrest]
    exact .ended hrest
  · obtain ⟨t, ht, -⟩ := run_read_of_encode hs hn hrest
    rw [ht]
    exact .size hn hrest
  · obtain ⟨fault, hfault, hkind⟩ := run_read_of_cutShort hs hcut
    rw [hfault]
    exact .cutShort hcut hkind
  · obtain ⟨fault, hfault, hkind⟩ := run_read_of_tooSmall hs hsmall
    rw [hfault]
    exact .tooSmall hsmall hkind

theorem run_read_eq_none_iff : (Stream.run read s).1 = .ok none ↔ s.rest = [] := by
  refine ⟨fun h => ?_, run_read_of_nil hs⟩
  have hdecides := decides_run_read hs
  rw [h] at hdecides
  cases hdecides with
  | ended hnil => exact hnil

theorem cutShort_iff :
    (∃ fault, (Stream.run read s).1 = .error fault ∧ fault.kind = .unexpectedEnd) ↔
      CutShort s.rest := by
  refine ⟨fun ⟨fault, h, hkind⟩ => ?_, run_read_of_cutShort hs⟩
  have hdecides := decides_run_read hs
  rw [h] at hdecides
  cases hdecides with
  | cutShort hcut => exact hcut
  | tooSmall _ hkind' => cases hkind.symm.trans hkind'

theorem tooSmall_iff :
    (∃ fault, (Stream.run read s).1 = .error fault ∧ fault.kind = .invalidFormat) ↔
      TooSmall s.rest := by
  refine ⟨fun ⟨fault, h, hkind⟩ => ?_, run_read_of_tooSmall hs⟩
  have hdecides := decides_run_read hs
  rw [h] at hdecides
  cases hdecides with
  | cutShort _ hkind' => cases hkind.symm.trans hkind'
  | tooSmall hsmall => exact hsmall

theorem kind_of_run_read_error {fault : Fault} (h : (Stream.run read s).1 = .error fault) :
    fault.kind = .unexpectedEnd ∨ fault.kind = .invalidFormat := by
  have hdecides := decides_run_read hs
  rw [h] at hdecides
  cases hdecides with
  | cutShort _ hkind => exact .inl hkind
  | tooSmall _ hkind => exact .inr hkind

end

/-! ### Both directions -/

theorem ofValue_of_int {v : Value} {n : Int} (h : v.int? = some n) : ofValue v = encode? n := by
  cases v with
  | bool b =>
    cases h
    cases b <;> rfl
  | int m =>
    cases h
    rfl
  | _ => cases h

theorem encode?_natCast {n : Nat} (h : n < Bytes.wordCount 8) : encode? n = .ok (encode n) := by
  rw [encode?, if_neg (by omega), if_neg (by omega), Int.toNat_natCast]

/-- Whole numbers from 0 to below 2 to the 64 have forms, from which they are read whatever
follows. What is read is the number whose form was taken off; nothing is read off no bytes, and
reading fails exactly where a word is cut short and where it holds too small a value. -/
theorem read_iff_encode :
    (∀ (v : Value) (n : Int), v.int? = some n →
      (n < 0 → ∃ fault, ofValue v = .error fault ∧ fault.kind = .assertion) ∧
      (0x10000000000000000 ≤ n → ∃ fault, ofValue v = .error fault ∧ fault.kind = .overflow) ∧
      (0 ≤ n → n < 0x10000000000000000 → ∃ form, ofValue v = .ok form ∧ ∀ rest, ∃ t,
        Stream.run read (.ofBytes (form ++ rest)) = (.ok (some n.toNat), t) ∧ t.rest = rest)) ∧
    ∀ (bs : Bytes) (result : Except Fault (Option Nat)) (t : Stream),
      Stream.run read (.ofBytes bs) = (result, t) →
      (∀ n, result = .ok (some n) → ofValue (.int n) = .ok (bs.take t.position)) ∧
      (result = .ok none ↔ bs = []) ∧
      ((∃ fault, result = .error fault ∧ fault.kind = .unexpectedEnd) ↔ CutShort bs) ∧
      ((∃ fault, result = .error fault ∧ fault.kind = .invalidFormat) ↔ TooSmall bs) ∧
      ∀ fault, result = .error fault →
        fault.kind = .unexpectedEnd ∨ fault.kind = .invalidFormat := by
  have h8 : Bytes.wordCount 8 = 0x10000000000000000 := rfl
  refine ⟨fun v n hv => ?_, fun bs result t hread => ?_⟩
  · rw [ofValue_of_int hv]
    refine ⟨fun hneg => ⟨_, if_pos hneg, rfl⟩, fun hbig => ⟨.numberTooGreat, ?_, rfl⟩,
      fun hnonneg hlt => ?_⟩
    · rw [encode?, if_neg (by omega), if_pos (by omega)]
    · obtain ⟨m, rfl⟩ := Int.eq_ofNat_of_zero_le hnonneg
      have hm : m < Bytes.wordCount 8 := by omega
      refine ⟨encode m, encode?_natCast hm, fun rest => ?_⟩
      have hrest := Stream.rest_ofBytes (encode m ++ rest)
      obtain ⟨t, ht, hadv⟩ := run_read_of_encode (Stream.plain_ofBytes _) hm hrest
      exact ⟨t, ht, hadv.rest_of_append hrest⟩
  · have hplain := Stream.plain_ofBytes bs
    refine ⟨?_, ?_⟩
    · rintro n rfl
      obtain ⟨form, ⟨rfl, hn⟩, hadv⟩ := (reads_readOr .valueLengthMissing).sound
        (run_readOr_eq_ok_iff.2 hread)
      have hpos : t.position = (encode n).length := hadv.position_eq.trans (Nat.zero_add _)
      have hbs : bs = encode n ++ t.rest := hadv.rest_eq
      rw [ofValue_of_int rfl, encode?_natCast hn, hbs, hpos, List.take_left]
    · obtain rfl : (Stream.run read (.ofBytes bs)).1 = result := congrArg Prod.fst hread
      exact ⟨run_read_eq_none_iff hplain, cutShort_iff hplain, tooSmall_iff hplain,
        fun _ => kind_of_run_read_error hplain⟩

/-- The least size with a marker is read in front of another byte, a word for a smaller one is
refused, and so is a word that is not whole. -/
theorem read_of_marker :
    ofValue (.int 0xfd) = .ok [0xfd, 0xfd, 0] ∧
      (∃ t, Stream.run read (.ofBytes [0xfd, 0xfd, 0, 7]) = (.ok (some 0xfd), t) ∧ t.rest = [7]) ∧
      (∃ fault, (Stream.run read (.ofBytes [0xfd, 0xfc, 0])).1 = .error fault ∧
        fault.kind = .invalidFormat) ∧
      ∃ fault, (Stream.run read (.ofBytes [0xfd, 0xfd])).1 = .error fault ∧
        fault.kind = .unexpectedEnd := by
  obtain ⟨hform, hread⟩ := read_iff_encode
  have hfd : ofValue (.int 0xfd) = .ok [0xfd, 0xfd, 0] := rfl
  obtain ⟨-, -, hok⟩ := hform (.int 0xfd) 0xfd rfl
  obtain ⟨form, hvalue, hrest⟩ := hok (by decide) (by decide)
  cases hfd.symm.trans hvalue
  obtain ⟨-, -, -, hsmall, -⟩ := hread [0xfd, 0xfc, 0] _ _ rfl
  obtain ⟨-, -, hcut, -⟩ := hread [0xfd, 0xfd] _ _ rfl
  refine ⟨hfd, hrest [7], hsmall.2 ?_, hcut.2 ?_⟩
  · exact ⟨0xfd, [0xfc, 0], [], 2, 0xfd, .two, rfl, rfl, by decide⟩
  · exact ⟨0xfd, [0xfd], 2, 0xfd, .two, rfl, by decide⟩

end PartialTx.CompactSize
