import PartialTx.CompactSize

/-! One field on the wire: a type code, the key with its size and the value with its
size. The code 0xff is no type: it separates one field map from the next. -/

namespace PartialTx

structure Field where
  code : UInt8
  key : Bytes
  value : Bytes
  deriving DecidableEq, Repr

/-- A field with a value of unchecked kind. -/
structure UncheckedField where
  code : UInt8
  key : Bytes
  value : Value

/-- The longest key and the longest value that a reader accepts. -/
structure Limits where
  key : Value
  value : Value

namespace Field

def separator : UInt8 := 0xff

/-! ### Reading -/

/-- Reads a size and as many bytes. `missing` is the fault of a stream that has ended, and
`tooLong` that of a size above the limit, which is found before the bytes are read. -/
def readSized (limit : Value) (missing : Fault) (tooLong : Nat → Value → Fault) :
    StreamM Bytes := do
  match ← CompactSize.read with
  | none => throw missing
  | some size =>
    if ← limit.exceededBy size then throw (tooLong size limit) else Stream.readExactly size

/-- Reads the key after a type code. -/
def readKeyOf (limit : Value) (code : UInt8) : StreamM Bytes :=
  readSized limit (.keyLengthMissing code) .keyTooLong

/-- Reads the type code and the key of the next field, or the separator. -/
def readKey (limit : Value) : StreamM (Option (UInt8 × Bytes)) := do
  match ← Stream.read 1 with
  | [] => throw .mapUnterminated
  | code :: _ =>
    if code = separator then return none else return some (code, ← readKeyOf limit code)

def readValue (limit : Value) : StreamM Bytes := readSized limit .valueLengthMissing .valueTooLong

/-- Reads the next field, or the separator. -/
def read (limits : Limits) : StreamM (Option Field) := do
  match ← readKey limits.key with
  | none => return none
  | some (code, key) => return some { code, key, value := ← readValue limits.value }

/-! ### Writing -/

/-- The chunks in which a field is written. -/
def chunks (f : Field) : List Bytes :=
  [[f.code], CompactSize.encode f.key.length, f.key, CompactSize.encode f.value.length, f.value]

def encode (f : Field) : Bytes := f.chunks.flatten

/-- The type code that an unchecked value stands for; the separator is none. -/
def codeOf (v : Value) : Except Fault UInt8 :=
  match v with
  | .float x =>
    if x = .nan ∨ x.isNegative ∨ ¬ (x.truncate?.any (· < 255)) then
      .error (.typeOutOfRange v)
    else .error .wrongKind
  | v =>
    match v.int? with
    | some n =>
      if 0 ≤ n ∧ n < separator.toNat then .ok (UInt8.ofNat n.toNat)
      else .error (.typeOutOfRange v)
    | none => .error .wrongKind

/-- The size of an unchecked value, as it is written. -/
def sizeOf (v : Value) : Except Fault Bytes := v.length.map CompactSize.encode

/-- Writes a field of unchecked parts, chunk by chunk; an empty part of any kind serves as
an empty key. -/
def writeValues (type value key : Value) : StreamM Unit := do
  let code ← codeOf type
  Stream.write [code]
  let key := if key.truth then key else .bytes []
  Stream.write (← sizeOf key)
  Stream.writeGiven key.content
  Stream.write (← sizeOf value)
  Stream.writeGiven value.content

def writeSeparator : StreamM Unit := Stream.write [separator]

def unchecked (f : Field) : UncheckedField := { f with value := .bytes f.value }

/-- A field of byte strings is written alike, whether or not its kinds are known. -/
theorem writeValues_bytes {f : Field} (h : f.code.toNat < separator.toNat) :
    writeValues (.int f.code.toNat) (.bytes f.value) (.bytes f.key) = Stream.writeAll f.chunks := by
  have hc : codeOf (.int f.code.toNat) = .ok f.code := by simp [codeOf, Value.int?, h]
  have hk : (if (Value.bytes f.key).truth then Value.bytes f.key else .bytes []) =
      .bytes f.key := by cases f.key <;> simp [Value.truth]
  have hs (bs : Bytes) : sizeOf (.bytes bs) = .ok (CompactSize.encode bs.length) := rfl
  simp only [writeValues, hk, hc, hs, Stream.lift_bind, Value.content, Stream.writeAll, chunks,
    List.forM_eq_forM, List.forM_cons, List.forM_nil, Stream.write, bind_pure_unit]

/-! ### Progress -/

theorem forward_readSized (limit : Value) (missing : Fault) (tooLong : Nat → Value → Fault) :
    Stream.Forward (readSized limit missing tooLong) := by
  refine .bind CompactSize.forward_read fun size => ?_
  split
  · exact .throw _
  · refine .bind (.lift _) fun exceeded => ?_
    split
    · exact .throw _
    · exact .readExactly _

/-- The type code alone takes a byte off the stream. -/
theorem remaining_lt_of_readKey {limit : Value} {s t : Stream} {head : UInt8 × Bytes}
    (h : Stream.run (readKey limit) s = (.ok (some head), t)) : t.remaining < s.remaining := by
  unfold readKey at h
  rw [Stream.run_bind] at h
  rcases hr : Stream.run (Stream.read 1) s with ⟨fault | got, u⟩
  · simp [hr] at h
  · have hu := Stream.remaining_of_run_read hr
    rcases got with _ | ⟨code, got⟩
    · simp [hr] at h
    · simp only [hr] at h
      split at h
      · simp at h
      · have hk := forward_readSized limit (.keyLengthMissing code) .keyTooLong u
        rw [Stream.run_bind] at h
        unfold readKeyOf at h
        rcases hs : Stream.run (readSized limit (.keyLengthMissing code) .keyTooLong) u with
          ⟨_ | key, v⟩
        · simp [hs] at h
        · simp only [hs, Stream.run_pure, Prod.mk.injEq] at h hk
          rw [← h.2]
          simp only [List.length_cons] at hu
          omega

/-- Reading a field uses up some of the stream. -/
theorem remaining_lt_of_read {limits : Limits} {s t : Stream} {f : Field}
    (h : Stream.run (read limits) s = (.ok (some f), t)) : t.remaining < s.remaining := by
  unfold read at h
  rw [Stream.run_bind] at h
  rcases hk : Stream.run (readKey limits.key) s with ⟨_ | _ | head, u⟩
  · simp [hk] at h
  · simp [hk] at h
  · have hu := remaining_lt_of_readKey hk
    have hv := forward_readSized limits.value .valueLengthMissing .valueTooLong u
    simp only [hk] at h
    rw [Stream.run_bind] at h
    unfold readValue at h
    rcases hs : Stream.run (readSized limits.value .valueLengthMissing .valueTooLong) u with
      ⟨_ | value, v⟩
    · simp [hs] at h
    · simp only [hs, Stream.run_pure, Prod.mk.injEq] at h hv
      rw [← h.2]
      omega

end Field

def UncheckedField.write (f : UncheckedField) : StreamM Unit :=
  Field.writeValues (.int f.code.toNat) f.value (.bytes f.key)

end PartialTx
