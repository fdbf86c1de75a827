import PartialTx.Field
import PartialTx.Proofs.CompactSize

/-! Fields on the wire. Under limits that a stream can be asked for, reading accepts the
written forms of the fields that keep within the limits, and a field that does not is
refused, as oversized if the limit can be written. -/

namespace PartialTx

/-- Keys and values of at most so many bytes. -/
def Limits.upTo (K V : Int) : Limits := { key := .int K, value := .int V }

/-! ### Sizes above a limit -/

/-- The refusal of a size that is above the limit for keys or above that for values. -/
inductive TooLong (K V : Int) : Fault → Prop
  | key {size : Nat} (h : K < size) : TooLong K V (.keyTooLong size (.int K))
  | value {size : Nat} (h : V < size) : TooLong K V (.valueTooLong size (.int V))

/-- Such a refusal where the limit has no numeral and so cannot be told. -/
inductive Untold (K V : Int) : Fault → Prop
  | key {size : Nat} (h : K < size) (hK : ¬ Text.hasNumeral K) :
    Untold K V (.keyTooLong size (.int K))
  | value {size : Nat} (h : V < size) (hV : ¬ Text.hasNumeral V) :
    Untold K V (.valueTooLong size (.int V))

section
variable {K V : Int} {fault : Fault}

theorem Fault.Kind.ifTold_int (k : Kind) (n : Int) :
    k.ifTold (.int n) = if Text.hasNumeral n then k else .badValue := by
  rw [ifTold, Value.quoted?, Text.ofInt?]
  split <;> rfl

theorem Untold.kind_eq (h : Untold K V fault) : fault.kind = .badValue := by
  cases h with
  | key _ hK => exact (Fault.Kind.ifTold_int _ K).trans (if_neg hK)
  | value _ hV => exact (Fault.Kind.ifTold_int _ V).trans (if_neg hV)

/-- A size above a limit is told as oversized, or not at all. -/
theorem TooLong.told (h : TooLong K V fault) :
    fault.kind = .oversized ∨ fault.kind = .badValue ∧ Untold K V fault := by
  cases h with
  | key h =>
    by_cases hK : Text.hasNumeral K
    · exact .inl ((Fault.Kind.ifTold_int _ K).trans (if_pos hK))
    · have huntold : Untold K V _ := .key h hK
      exact .inr ⟨huntold.kind_eq, huntold⟩
  | value h =>
    by_cases hV : Text.hasNumeral V
    · exact .inl ((Fault.Kind.ifTold_int _ V).trans (if_pos hV))
    · have huntold : Untold K V _ := .value h hV
      exact .inr ⟨huntold.kind_eq, huntold⟩

/-- Limits that can be written are told. -/
theorem not_untold (hK : Text.hasNumeral K) (hV : Text.hasNumeral V) : ¬ Untold K V fault := by
  rintro (⟨-, hnot⟩ | ⟨-, hnot⟩)
  · exact hnot hK
  · exact hnot hV

theorem TooLong.kind_eq (h : TooLong K V fault) (hK : Text.hasNumeral K)
    (hV : Text.hasNumeral V) : fault.kind = .oversized :=
  h.told.resolve_right fun huntold => not_untold hK hV huntold.2

end

/-- The greatest whole number below zero that has no numeral. -/
def unwritable : Int := -(Nat.pow 10 Text.maxDigits : Nat)

theorem not_hasNumeral_unwritable : ¬ Text.hasNumeral unwritable := by
  rw [Text.hasNumeral_iff, unwritable, Int.natAbs_neg, Int.natAbs_natCast]
  exact Nat.lt_irrefl _

theorem unwritable_lt_zero : unwritable < 0 := by
  have hpos := Text.hasNumeral_iff.1 (show Text.hasNumeral 0 from rfl)
  exact Int.neg_neg_of_pos (Int.natCast_pos.2 hpos)

theorem unwritable_lt_sizeBound : unwritable < Value.sizeBound :=
  Int.lt_trans unwritable_lt_zero (by decide)

namespace Field

open PartialTx.Stream (Reads Plain Advance)

/-- A field that keeps within limits and cannot be taken for the separator. -/
structure Fits (K V : Int) (f : Field) : Prop where
  code_ne : f.code ≠ separator
  key_le : (f.key.length : Int) ≤ K
  value_le : (f.value.length : Int) ≤ V

/-- A field whose key and value have lengths that a stream can be asked for. -/
structure Framed (f : Field) : Prop where
  code_ne : f.code ≠ separator
  key_lt : f.key.length < Value.sizeBound
  value_lt : f.value.length < Value.sizeBound

/-- A field that can be told from its written form: its code is not the separator, and its
lengths have forms. -/
structure Encodable (f : Field) : Prop where
  code_ne : f.code ≠ separator
  key_lt : f.key.length < Bytes.wordCount 8
  value_lt : f.value.length < Bytes.wordCount 8

theorem Fits.encodable {K V : Int} {f : Field} (hK : K < Value.sizeBound)
    (hV : V < Value.sizeBound) (hf : f.Fits K V) : f.Encodable := by
  have h8 : Bytes.wordCount 8 = 2 * Value.sizeBound := rfl
  have hkey := hf.key_le
  have hvalue := hf.value_le
  exact ⟨hf.code_ne, by omega, by omega⟩

/-- A byte string with its size in front. -/
def sized (bs : Bytes) : Bytes := CompactSize.encode bs.length ++ bs

theorem encode_eq (f : Field) : f.encode = f.code :: (sized f.key ++ sized f.value) := by
  simp [encode, chunks, sized]

/-- Byte strings are told apart by their sizes and what follows them. -/
theorem sized_append_inj {as bs rest rest' : Bytes} (ha : as.length < Bytes.wordCount 8)
    (hb : bs.length < Bytes.wordCount 8) (h : sized as ++ rest = sized bs ++ rest') :
    as = bs ∧ rest = rest' := by
  rw [sized, sized, List.append_assoc, List.append_assoc] at h
  obtain ⟨hlen, htail⟩ := CompactSize.encode_append_inj ha hb h
  exact List.append_inj htail hlen

theorem encode_append_inj {f g : Field} (hf : f.Encodable) (hg : g.Encodable)
    {rest rest' : Bytes} (h : f.encode ++ rest = g.encode ++ rest') : f = g ∧ rest = rest' := by
  obtain ⟨code, key, value⟩ := f
  obtain ⟨code', key', value'⟩ := g
  rw [encode_eq, encode_eq, List.cons_append, List.cons_append, List.append_assoc,
    List.append_assoc] at h
  obtain ⟨hcode, htail⟩ := List.cons.inj h
  obtain ⟨hkey, htail⟩ := sized_append_inj hf.key_lt hg.key_lt htail
  obtain ⟨hvalue, hrest⟩ := sized_append_inj hf.value_lt hg.value_lt htail
  exact ⟨by rw [mk.injEq]; exact ⟨hcode, hkey, hvalue⟩, hrest⟩

/-! ### Sized byte strings -/

/-- Reads so many bytes, unless they are more than the limit. -/
def readWithin (limit : Value) (tooLong : Nat → Value → Fault) (size : Nat) : StreamM Bytes := do
  if ← limit.exceededBy size then throw (tooLong size limit) else Stream.readExactly size

theorem readSized_eq (limit : Value) (missing : Fault) (tooLong : Nat → Value → Fault) :
    readSized limit missing tooLong =
      CompactSize.readOr missing >>= readWithin limit tooLong := by
  unfold readSized CompactSize.readOr
  rw [bind_assoc]
  congr 1
  funext size
  rcases size with _ | size <;> rfl

theorem readWithin_eq (L : Int) (tooLong : Nat → Value → Fault) (size : Nat) :
    readWithin (.int L) tooLong size =
      if L < size then throw (tooLong size (.int L)) else Stream.readExactly size := by
  unfold readWithin
  rw [show (Value.int L).exceededBy size = .ok (decide (L < size)) from rfl, Stream.lift_bind]
  simp only [decide_eq_true_eq]

section
variable {L : Int} (missing : Fault) (tooLong : Nat → Value → Fault)

theorem reads_readWithin (hL : L < Value.sizeBound) (size : Nat) :
    Reads (readWithin (.int L) tooLong size) fun bs got =>
      bs = got ∧ got.length = size ∧ (size : Int) ≤ L := by
  rw [readWithin_eq]
  by_cases hs : L < size
  · rw [if_pos hs]
    exact (Reads.throw _).congr fun bs got => ⟨False.elim, fun h => by omega⟩
  · rw [if_neg hs]
    exact (Reads.readExactly (by omega)).congr fun bs got =>
      ⟨fun h => ⟨h.1, h.2, by omega⟩, fun h => ⟨h.1, h.2.1⟩⟩

theorem reads_readSized (hL : L < Value.sizeBound) :
    Reads (readSized (.int L) missing tooLong) fun bs got =>
      bs = sized got ∧ (got.length : Int) ≤ L := by
  rw [readSized_eq]
  refine (Reads.bind (CompactSize.reads_readOr missing) (reads_readWithin tooLong hL)).congr
    fun bs got => ?_
  constructor
  · rintro ⟨size, _, _, rfl, ⟨rfl, -⟩, rfl, rfl, hle⟩
    exact ⟨rfl, hle⟩
  · rintro ⟨rfl, hle⟩
    have h8 : Bytes.wordCount 8 = 2 * Value.sizeBound := rfl
    exact ⟨got.length, _, got, rfl, ⟨rfl, by omega⟩, rfl, rfl, hle⟩

/-- A size above the limit is found before the bytes are read. -/
theorem run_readSized_of_lt {s : Stream} (hs : s.Plain) {size : Nat} {rest : Bytes}
    (hsize : size < Bytes.wordCount 8) (hrest : s.rest = CompactSize.encode size ++ rest)
    (hL : L < size) :
    ∃ t, Stream.run (readSized (.int L) missing tooLong) s =
      (.error (tooLong size (.int L)), t) := by
  obtain ⟨t, ht, -⟩ := (CompactSize.reads_readOr missing).complete hs ⟨rfl, hsize⟩ hrest
  refine ⟨t, ?_⟩
  simp only [readSized_eq, Stream.run_bind, ht, readWithin_eq, if_pos hL, Stream.run_throw]

end

/-! ### Fields -/

section
variable {K V : Int}

theorem reads_readKey (hK : K < Value.sizeBound) :
    Reads (readKey (.int K)) fun bs head =>
      match head with
      | none => bs = [separator]
      | some (code, key) =>
        bs = code :: sized key ∧ code ≠ separator ∧ (key.length : Int) ≤ K := by
  have hkey (code : UInt8) := Reads.bind (reads_readSized (.keyLengthMissing code) .keyTooLong hK)
    fun key => Reads.pure (some (code, key))
  refine (Reads.head fun code => Reads.ite (fun _ => .pure none) fun _ => hkey code).congr
    fun bs head => ?_
  constructor
  · rintro ⟨code, cs, rfl, h⟩
    split at h
    next hc =>
      obtain ⟨rfl, rfl⟩ := h
      rw [hc]
    next hc =>
      obtain ⟨key, _, _, rfl, ⟨rfl, hle⟩, rfl, rfl⟩ := h
      exact ⟨by rw [List.append_nil], hc, hle⟩
  · rcases head with _ | ⟨code, key⟩
    · rintro rfl
      exact ⟨separator, [], rfl, by rw [if_pos rfl]; exact ⟨rfl, rfl⟩⟩
    · rintro ⟨rfl, hc, hle⟩
      refine ⟨code, sized key, rfl, ?_⟩
      rw [if_neg hc]
      exact ⟨key, _, [], (List.append_nil _).symm, ⟨rfl, hle⟩, rfl, rfl⟩

/-- What is accepted as a field is the written form of one within the limits. -/
theorem reads_read (hK : K < Value.sizeBound) (hV : V < Value.sizeBound) :
    Reads (read (.upTo K V)) fun bs next =>
      match next with
      | none => bs = [separator]
      | some f => bs = f.encode ∧ f.Fits K V := by
  have hvalue (code : UInt8) (key : Bytes) :=
    Reads.bind (reads_readSized .valueLengthMissing .valueTooLong hV)
      fun value => Reads.pure (some (Field.mk code key value))
  refine (Reads.bind (reads_readKey hK) (M := fun head bs next =>
    match head with
    | none => bs = [] ∧ next = none
    | some (code, key) => ∃ value, bs = sized value ∧ (value.length : Int) ≤ V ∧
        next = some { code, key, value }) fun head => ?_).congr fun bs next => ?_
  · rcases head with _ | ⟨code, key⟩
    · exact .pure none
    · refine (hvalue code key).congr fun bs next => ?_
      constructor
      · rintro ⟨value, _, _, rfl, ⟨rfl, hle⟩, rfl, rfl⟩
        exact ⟨value, List.append_nil _, hle, rfl⟩
      · rintro ⟨value, rfl, hle, rfl⟩
        exact ⟨value, _, [], (List.append_nil _).symm, ⟨rfl, hle⟩, rfl, rfl⟩
  · constructor
    · rintro ⟨_ | ⟨code, key⟩, cs, ds, rfl, hkey, hnext⟩
      · obtain ⟨rfl, rfl⟩ := hnext
        rw [hkey, List.append_nil]
      · obtain ⟨rfl, hc, hk⟩ := hkey
        obtain ⟨value, rfl, hv, rfl⟩ := hnext
        exact ⟨(encode_eq { code, key, value }).symm, hc, hk, hv⟩
    · rcases next with _ | f
      · rintro rfl
        exact ⟨none, [separator], [], rfl, rfl, rfl, rfl⟩
      · rintro ⟨rfl, hf⟩
        exact ⟨some (f.code, f.key), f.code :: sized f.key, sized f.value, encode_eq f,
          ⟨rfl, hf.code_ne, hf.key_le⟩, f.value, rfl, hf.value_le, rfl⟩

section
variable {s : Stream} (hs : s.Plain) {f : Field} {rest : Bytes} (hrest : s.rest = f.encode ++ rest)
  (hframed : f.Framed)
include hs hrest hframed

/-- A key above the limit is refused before it is read. -/
theorem run_read_of_key_lt (V : Int) (hk : K < f.key.length) :
    ∃ t, Stream.run (read (.upTo K V)) s = (.error (.keyTooLong f.key.length (.int K)), t) := by
  obtain ⟨hc, hkey, -⟩ := hframed
  have h8 : Bytes.wordCount 8 = 2 * Value.sizeBound := rfl
  rw [encode_eq] at hrest
  have hhead : s.rest = [f.code] ++ (sized f.key ++ sized f.value ++ rest) := hrest
  obtain ⟨u, hu, hsu⟩ := Stream.run_read_one hs hhead
  have hr : u.rest = CompactSize.encode f.key.length ++ (f.key ++ (sized f.value ++ rest)) := by
    rw [hsu.rest_of_append hhead, sized]
    simp only [List.append_assoc]
  obtain ⟨t, ht⟩ := run_readSized_of_lt (.keyLengthMissing f.code) .keyTooLong (hsu.plain hs)
    (by omega) hr hk
  refine ⟨t, ?_⟩
  simp only [read, readKey, Limits.upTo, Stream.run_bind, hu, if_neg hc, readKeyOf, ht]

/-- A value above the limit is refused before it is read, if the key is not. -/
theorem run_read_of_value_lt (hK : K < Value.sizeBound) (hk : (f.key.length : Int) ≤ K)
    (hv : V < f.value.length) :
    ∃ t, Stream.run (read (.upTo K V)) s = (.error (.valueTooLong f.value.length (.int V)), t) := by
  obtain ⟨hc, -, hvalue⟩ := hframed
  have h8 : Bytes.wordCount 8 = 2 * Value.sizeBound := rfl
  rw [encode_eq] at hrest
  have hhead : s.rest = (f.code :: sized f.key) ++ (sized f.value ++ rest) := by
    rw [hrest, List.cons_append, List.cons_append, List.append_assoc]
  obtain ⟨u, hu, hsu⟩ := (reads_readKey hK).complete (a := some (f.code, f.key)) hs
    ⟨rfl, hc, hk⟩ hhead
  have hr : u.rest = CompactSize.encode f.value.length ++ (f.value ++ rest) := by
    rw [hsu.rest_of_append hhead, sized, List.append_assoc]
  obtain ⟨t, ht⟩ := run_readSized_of_lt .valueLengthMissing .valueTooLong (hsu.plain hs)
    (by omega) hr hv
  refine ⟨t, ?_⟩
  simp only [read, Limits.upTo, Stream.run_bind, hu, readValue, ht]

theorem run_read_of_not_fits (hK : K < Value.sizeBound) (hf : ¬ f.Fits K V) :
    ∃ fault t, Stream.run (read (.upTo K V)) s = (.error fault, t) ∧ TooLong K V fault := by
  by_cases hk : (f.key.length : Int) ≤ K
  · have hv : V < f.value.length := Int.not_le.1 fun hv => hf ⟨hframed.code_ne, hk, hv⟩
    obtain ⟨t, ht⟩ := run_read_of_value_lt hs hrest hframed hK hk hv
    exact ⟨_, t, ht, .value hv⟩
  · obtain ⟨t, ht⟩ := run_read_of_key_lt hs hrest hframed V (Int.not_le.1 hk)
    exact ⟨_, t, ht, .key (Int.not_le.1 hk)⟩

end

end

end Field

end PartialTx
