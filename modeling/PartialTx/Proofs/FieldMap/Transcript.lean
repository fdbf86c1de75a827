import Mathlib.Data.List.Forall2
import PartialTx.Proofs.FieldMap
import PartialTx.Proofs.Stream.Writing

/-! Fields call by call. Fields that are written one after another, with the separator behind
them, come back in their order when heads and values are read in turn, whatever follows. What
the bytes of a key or a value look like makes no difference. A number that is no code of a
field is refused before anything is written. -/

namespace PartialTx

open PartialTx.Stream (Advance)

theorem Value.eq_of_bytes? {v : Value} {bs : Bytes} (h : v.bytes? = some bs) :
    v = .bytes bs ∨ v = .buffer bs := by
  cases v with
  | bytes cs =>
    cases h
    exact .inl rfl
  | buffer cs =>
    cases h
    exact .inr rfl
  | _ => cases h

theorem Value.content_of_bytes? {v : Value} {bs : Bytes} (h : v.bytes? = some bs) :
    v.content = .ok bs := by
  rcases eq_of_bytes? h with rfl | rfl <;> rfl

namespace Field

/-! ### Reading in turn -/

/-- What a caller gets as the head of a field: its code, and its key unless that is empty; at
the separator neither. -/
def headOf : Option (UInt8 × Bytes) → Option UInt8 × Option Bytes
  | none => (none, none)
  | some (code, key) => (some code, if key.isEmpty then none else some key)

def readHead (limit : Value) : StreamM (Option UInt8 × Option Bytes) := do
  return headOf (← readKey limit)

def head (f : Field) : Option UInt8 × Option Bytes := headOf (some (f.code, f.key))

/-- Heads and values are read in turn up to the separator, and these are the fields. -/
inductive InTurn (limits : Limits) : Stream → List Field → Stream → Prop
  | separator {s t : Stream} (h : Stream.run (readHead limits.key) s = (.ok (none, none), t)) :
    InTurn limits s [] t
  | field {s t u v : Stream} {f : Field} {fs : List Field}
      (hhead : Stream.run (readHead limits.key) s = (.ok f.head, t))
      (hvalue : Stream.run (readValue limits.value) t = (.ok f.value, u))
      (hrest : InTurn limits u fs v) : InTurn limits s (f :: fs) v

section
variable {K V : Int} {s : Stream} {rest : Bytes}

theorem run_readHead (hK : K < Value.sizeBound) (hs : s.Plain) (key : Option (UInt8 × Bytes))
    {bs : Bytes}
    (hkey : match key with
      | none => bs = [separator]
      | some (code, key) => bs = code :: sized key ∧ code ≠ separator ∧ (key.length : Int) ≤ K)
    (hrest : s.rest = bs ++ rest) :
    ∃ t, Stream.run (readHead (.int K)) s = (.ok (headOf key), t) ∧ Advance s t bs := by
  obtain ⟨t, ht, hst⟩ := (reads_readKey hK).complete hs hkey hrest
  refine ⟨t, ?_, hst⟩
  rw [readHead, Stream.run_bind, ht]
  rfl

/-- The head and the value of the next field are read in turn. -/
theorem run_readHead_readValue (hK : K < Value.sizeBound) (hV : V < Value.sizeBound)
    (hs : s.Plain) {f : Field} (hf : f.Fits K V) (hrest : s.rest = f.encode ++ rest) :
    ∃ t u, Stream.run (readHead (.int K)) s = (.ok f.head, t) ∧
      Stream.run (readValue (.int V)) t = (.ok f.value, u) ∧ Advance s u f.encode := by
  have hhead : s.rest = (f.code :: sized f.key) ++ (sized f.value ++ rest) := by
    rw [hrest, encode_eq, ← List.append_assoc]
    rfl
  obtain ⟨t, ht, hst⟩ := run_readHead hK hs (some (f.code, f.key))
    ⟨rfl, hf.code_ne, hf.key_le⟩ hhead
  obtain ⟨u, hu, htu⟩ := (reads_readSized .valueLengthMissing .valueTooLong hV).complete
    (hst.plain hs) ⟨rfl, hf.value_le⟩ (hst.rest_of_append hhead)
  exact ⟨t, u, ht, hu, encode_eq f ▸ hst.trans htu⟩

theorem inTurn_of_rest (hK : K < Value.sizeBound) (hV : V < Value.sizeBound) {fs : List Field}
    (hfs : ∀ f ∈ fs, f.Fits K V) (hs : s.Plain) (hrest : s.rest = FieldMap.encode fs ++ rest) :
    ∃ t, InTurn (.upTo K V) s fs t ∧ Advance s t (FieldMap.encode fs) := by
  induction fs generalizing s with
  | nil =>
    obtain ⟨t, ht, hst⟩ := run_readHead hK hs none rfl hrest
    exact ⟨t, .separator ht, hst⟩
  | cons f fs ih =>
    rw [List.forall_mem_cons] at hfs
    rw [FieldMap.encode_cons] at hrest ⊢
    rw [List.append_assoc] at hrest
    obtain ⟨t, u, ht, hu, hsu⟩ := run_readHead_readValue hK hV hs hfs.1 hrest
    obtain ⟨v, hv, huv⟩ := ih hfs.2 (hsu.plain hs) (hsu.rest_of_append hrest)
    exact ⟨v, .field ht hu hv, hsu.trans huv⟩

end

/-! ### Writing -/

/-- The arguments of a call that writes a field. -/
structure Given where
  type : Value
  value : Value
  key : Value

def Given.write (g : Given) : StreamM Unit := writeValues g.type g.value g.key

/-- A field as it is given: a whole number for its code, and byte strings of either kind, or
null for an empty key. -/
structure Given.Means (g : Given) (f : Field) : Prop where
  type_eq : g.type.int? = some (f.code.toNat : Int)
  value_eq : g.value.bytes? = some f.value
  key_eq : g.key.bytes? = some f.key ∨ g.key = .null ∧ f.key = []

theorem codeOf_of_int? {type : Value} {n : Int} (h : type.int? = some n) :
    codeOf type =
      if 0 ≤ n ∧ n < separator.toNat then .ok (UInt8.ofNat n.toNat)
      else .error (.typeOutOfRange type) := by
  cases type with
  | int m =>
    cases h
    rfl
  | bool b =>
    cases h
    rfl
  | _ => cases h

theorem sizeOf_of_bytes? {v : Value} {bs : Bytes} (h : v.bytes? = some bs) :
    sizeOf v = .ok (CompactSize.encode bs.length) := by
  rcases Value.eq_of_bytes? h with rfl | rfl <;> rfl

theorem Given.Means.bytes?_key {g : Given} {f : Field} (h : g.Means f) :
    (if g.key.truth then g.key else .bytes []).bytes? = some f.key := by
  -- An empty byte string counts as false like null, and what takes its place is empty, too.
  rcases h.key_eq with hkey | ⟨hkey, hempty⟩
  · rcases Value.eq_of_bytes? hkey with hkey | hkey <;> rw [hkey] <;> cases f.key <;> rfl
  · rw [hkey, hempty]
    rfl

theorem Given.Means.write_eq {g : Given} {f : Field} (h : g.Means f) (hc : f.code ≠ separator) :
    g.write = Stream.writeAll f.chunks := by
  have hcode : codeOf g.type = .ok f.code := by
    have hlt : f.code.toNat < separator.toNat := by
      have hle := f.code.toNat_lt
      have hne : f.code.toNat ≠ separator.toNat := fun heq => hc (UInt8.toNat_inj.1 heq)
      have : separator.toNat = 255 := rfl
      omega
    rw [codeOf_of_int? h.type_eq, if_pos ⟨Int.natCast_nonneg _, Int.ofNat_lt.2 hlt⟩]
    simp
  simp only [write, writeValues, hcode, sizeOf_of_bytes? h.bytes?_key,
    Value.content_of_bytes? h.bytes?_key, sizeOf_of_bytes? h.value_eq,
    Value.content_of_bytes? h.value_eq, Stream.lift_bind, Stream.writeAll, chunks,
    List.forM_eq_forM, List.forM_cons, List.forM_nil, Stream.write, bind_pure_unit]

/-- A number that is no code of a field is refused, and the stream is as it was. -/
theorem run_write_of_not_code {g : Given} {n : Int} (h : g.type.int? = some n)
    (hn : ¬ (0 ≤ n ∧ n ≤ 254)) (s : Stream) :
    Stream.run g.write s = (.error (.typeOutOfRange g.type), s) := by
  have hout : ¬ (0 ≤ n ∧ n < separator.toNat) := by
    have : separator.toNat = 255 := rfl
    omega
  rw [Given.write, writeValues, codeOf_of_int? h, if_neg hout, Stream.run_bind]
  rfl

end Field

namespace FieldMap

open PartialTx.Field (Given InTurn)

/-- Writes fields as they are given, call by call, and the separator. -/
def writeEach (gs : List Given) : StreamM Unit := do
  gs.forM Given.write
  Field.writeSeparator

theorem writeEach_eq {gs : List Given} {fs : List Field} (h : List.Forall₂ Given.Means gs fs)
    (hfs : ∀ f ∈ fs, f.code ≠ Field.separator) :
    writeEach gs = Stream.writeAll (chunks fs) := by
  induction h with
  | nil => simp [writeEach, chunks, Stream.writeAll, Field.writeSeparator]
  | @cons g f gs fs hg _ ih =>
    rw [List.forall_mem_cons] at hfs
    rw [show chunks (f :: fs) = f.chunks ++ chunks fs by simp [chunks], Stream.writeAll_append,
      ← ih hfs.2, ← hg.write_eq hfs.1]
    simp [writeEach]

/-- Fields that are written call by call are read back in turn, with an empty key told as none,
and what follows them is left; a number beyond the codes is refused before any byte is
written. -/
theorem written_fields_read_in_turn :
    (∀ (K V : Int) (gs : List Given) (fs : List Field), K < Value.sizeBound →
      V < Value.sizeBound → List.Forall₂ Given.Means gs fs → (∀ f ∈ fs, f.Fits K V) →
      (∀ s : Stream, s.AtEnd → s.writesLeft = none →
        ∃ t, Stream.run (writeEach gs) s = (.ok (), t) ∧ t.content = s.content ++ encode fs ∧
          t.AtEnd) ∧
      ∀ (s : Stream) (rest : Bytes), s.Plain → s.rest = encode fs ++ rest →
        ∃ t, InTurn (.upTo K V) s fs t ∧ t.rest = rest) ∧
    ∀ (g : Given) (n : Int) (s : Stream), g.type.int? = some n → ¬ (0 ≤ n ∧ n ≤ 254) →
      ∃ fault, Stream.run g.write s = (.error fault, s) ∧ fault.kind = .assertion := by
  constructor
  · intro K V gs fs hK hV hgs hfs
    constructor
    · intro s hs hleft
      have haccepts := Stream.accepts_of_none hleft (chunks fs).length
      obtain ⟨t, ht, hst⟩ := Stream.run_writeAll hs haccepts
      refine ⟨t, ?_, hst.content_eq, hst.atEnd⟩
      rw [writeEach_eq hgs fun f hf => (hfs f hf).code_ne, ht]
    · intro s rest hs hrest
      obtain ⟨t, ht, hst⟩ := Field.inTurn_of_rest hK hV hfs hs hrest
      exact ⟨t, ht, hst.rest_of_append hrest⟩
  · intro g n s hn hout
    exact ⟨_, Field.run_write_of_not_code hn hout s, rfl⟩

/-- A flag as the code and null as the key, with a value that looks like a separator and a long
length. -/
theorem written_fields_read_in_turn_flag :
    (∃ t, Stream.run (writeEach [⟨.bool true, .buffer [0xff, 0xfd], .null⟩]) (.ofBytes []) =
      (.ok (), t) ∧ t.content = encode [⟨1, [], [0xff, 0xfd]⟩] ∧ t.AtEnd) ∧
    (∃ t, InTurn (.upTo 0 2) (.ofBytes (encode [⟨1, [], [0xff, 0xfd]⟩] ++ [7]))
      [⟨1, [], [0xff, 0xfd]⟩] t ∧ t.rest = [7]) ∧
    ∃ fault, Stream.run (Given.write ⟨.int 255, .bytes [], .null⟩) (.ofBytes []) =
      (.error fault, .ofBytes []) ∧ fault.kind = .assertion := by
  have hmeans : List.Forall₂ Given.Means [⟨.bool true, .buffer [0xff, 0xfd], .null⟩]
      [⟨1, [], [0xff, 0xfd]⟩] := .cons ⟨rfl, rfl, .inr ⟨rfl, rfl⟩⟩ .nil
  have hfits : ∀ f ∈ [(⟨1, [], [0xff, 0xfd]⟩ : Field)], f.Fits 0 2 :=
    List.forall_mem_singleton.2 ⟨by decide, by decide, by decide⟩
  obtain ⟨hwritten, hread⟩ := written_fields_read_in_turn.1 0 2 _ _ (by decide) (by decide) hmeans
    hfits
  exact ⟨hwritten (.ofBytes []) ⟨rfl, rfl⟩ rfl,
    hread _ [7] (Stream.plain_ofBytes _) (Stream.rest_ofBytes _),
    written_fields_read_in_turn.2 _ 255 _ rfl (by decide)⟩

end FieldMap

end PartialTx
