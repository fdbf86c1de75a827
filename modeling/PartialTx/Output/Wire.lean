import PartialTx.FieldMap
import PartialTx.Output.Store

/-! Records on the wire. A record is written as a field map with its fields in the
order of their types and then of their keys, and read field by field. A record that a
caller has filled is written up to the first script that has no bytes. -/

namespace PartialTx.Output

variable {σ : Type} [Script σ]

/-! ### Writing -/

/-- The field of a type that has no key, if it is there. -/
def single (type : FieldType) (value : Option Bytes) : List Field :=
  value.toList.map fun value => { code := type.code, key := [], value }

def ofKeyOrigin (o : KeyOrigin) : Field :=
  { code := FieldType.keyOrigin.code, key := o.key, value := o.pack }

def ofTapOrigin (o : TapOrigin) : Field :=
  { code := FieldType.tapKeyOrigin.code, key := o.key, value := o.pack }

/-- The fields of a record in the order in which they are written. -/
def fields (r : Output Bytes) : List Field :=
  single .redeemScript r.redeemScript ++ single .witnessScript r.witnessScript
    ++ (Keyed.sort r.keyOrigins).map ofKeyOrigin
    ++ single .tapInternalKey r.tapInternalKey ++ single .tapTree r.tapTree
    ++ (TapOrigin.sort r.tapOrigins).map ofTapOrigin

def toBytes (r : Output Bytes) : Bytes := FieldMap.encode r.fields

/-- Writes a record to a stream. -/
def write (r : Output Bytes) : StreamM Unit := Stream.writeAll (FieldMap.chunks r.fields)

def givenSingle (type : FieldType) (value : Option Value) : List UncheckedField :=
  value.toList.map fun value => { code := type.code, key := [], value }

/-- The fields of a record that a caller has filled. -/
def givenFields (r : Output Value) : List UncheckedField :=
  givenSingle .redeemScript r.redeemScript ++ givenSingle .witnessScript r.witnessScript
    ++ (Keyed.sort r.keyOrigins).map (fun o => (ofKeyOrigin o).unchecked)
    ++ (single .tapInternalKey r.tapInternalKey).map Field.unchecked
    ++ givenSingle .tapTree r.tapTree
    ++ (TapOrigin.sort r.tapOrigins).map (fun o => (ofTapOrigin o).unchecked)

/-- Writes fields up to the first that has no bytes, and then the separator. -/
def writeUnchecked (fs : List UncheckedField) : StreamM Unit := do
  fs.forM UncheckedField.write
  Field.writeSeparator

def writeGiven (r : Output Value) : StreamM Unit := writeUnchecked r.givenFields

/-- A record that a caller has filled as one of byte strings, if it holds nothing else. -/
def ofGiven (r : Output Value) : Except Fault (Output Bytes) := r.mapM Value.content

/-- The bytes of a record that a caller has filled, if all of it can be written. -/
def bytesOfGiven (r : Output Value) : Except Fault Bytes := do
  return (← r.ofGiven).toBytes

@[simp] theorem ofGiven_map_bytes (r : Output Bytes) :
    (r.map Value.bytes).ofGiven = .ok r := by
  have hs (value : Option Bytes) :
      (value.map Value.bytes).mapM Value.content = .ok value := by
    cases value <;> rfl
  simp only [ofGiven, mapM, map, hs]
  rfl

theorem code_lt_of_mem_fields {r : Output Bytes} {f : Field} (h : f ∈ r.fields) :
    f.code.toNat < Field.separator.toNat := by
  have hc (type : FieldType) : type.code.toNat < Field.separator.toNat := by
    cases type <;> decide
  simp only [fields, single, List.mem_append, List.mem_map] at h
  rcases h with ((((h | h) | h) | h) | h) | h <;> obtain ⟨_, -, rfl⟩ := h <;> exact hc _

theorem givenFields_map_bytes (r : Output Bytes) :
    (r.map Value.bytes).givenFields = r.fields.map Field.unchecked := by
  have hs (type : FieldType) (value : Option Bytes) :
      givenSingle type (value.map Value.bytes) =
        (single type value).map Field.unchecked := by
    cases value <;> rfl
  simp only [givenFields, fields, map, hs, List.map_append, List.map_map, Function.comp_def]

theorem writeUnchecked_map_unchecked {fs : List Field}
    (h : ∀ f ∈ fs, f.code.toNat < Field.separator.toNat) :
    writeUnchecked (fs.map Field.unchecked) = Stream.writeAll (FieldMap.chunks fs) := by
  induction fs with
  | nil => simp [writeUnchecked, FieldMap.chunks, Stream.writeAll, Field.writeSeparator]
  | cons f fs ih =>
    have hf : f.unchecked.write = Stream.writeAll f.chunks :=
      Field.writeValues_bytes (h f List.mem_cons_self)
    have hfs := ih fun g hg => h g (List.mem_cons_of_mem f hg)
    simp only [FieldMap.chunks, List.flatMap_cons, List.append_assoc,
      Stream.writeAll_append] at hfs ⊢
    rw [← hfs, ← hf]
    simp [writeUnchecked]

/-- A record of byte strings is written alike, whether or not a caller has filled it. -/
theorem writeGiven_map_bytes (r : Output Bytes) :
    (r.map Value.bytes).writeGiven = r.write := by
  rw [writeGiven, givenFields_map_bytes]
  exact writeUnchecked_map_unchecked fun f hf => code_lt_of_mem_fields hf

/-! ### Reading -/

/-- Reads a map into a record. What was stored before a failure stays. -/
def populate (limits : Limits) (r : Output σ) (s : Stream) :
    Except Fault Unit × Progress (Output σ) :=
  FieldMap.populate store limits { state := r, stream := s }

/-- Reads a record off a stream, up to and including the separator. -/
def ofStream (limits : Limits) (s : Stream) : Except Fault Unit × Progress (Output Bytes) :=
  populate limits {} s

/-- The record that a reading comes to if it leaves nothing on the stream. -/
def complete (reading : Except Fault Unit × Progress (Output Bytes)) :
    Except Fault (Output Bytes) :=
  match reading with
  | (.error fault, _) => .error fault
  | (.ok (), p) =>
    if p.stream.remaining = 0 then .ok p.state else .error (.trailingBytes p.stream.remaining)

/-- The record that a byte string holds and nothing else. -/
def ofBytes (limits : Limits) (raw : Bytes) : Except Fault (Output Bytes) :=
  complete (ofStream limits (.ofBytes raw))

end PartialTx.Output
