import PartialTx.Field

/-! A field map on the wire: fields one after another, then the separator. Reading a
map hands each field to the owner of the map, who stores or refuses it. -/

namespace PartialTx

/-- How far the reading of a map got: what its owner has stored, the stream, and the fields
that were read to their end, the latest first. -/
structure Progress (σ : Type) where
  state : σ
  stream : Stream
  fields : List Field := []

namespace FieldMap

/-- Reads fields up to the separator. A field counts as read before it is stored, and what
was stored before a failure stays. -/
def populate {σ : Type} (store : σ → Field → Except Fault σ) (limits : Limits)
    (p : Progress σ) : Except Fault Unit × Progress σ :=
  match _h : Stream.run (Field.read limits) p.stream with
  | (.error fault, stream) => (.error fault, { p with stream })
  | (.ok none, stream) => (.ok (), { p with stream })
  | (.ok (some f), stream) =>
    match store p.state f with
    | .error fault => (.error fault, { p with stream, fields := f :: p.fields })
    | .ok state => populate store limits { state, stream, fields := f :: p.fields }
termination_by p.stream.remaining
decreasing_by exact Field.remaining_lt_of_read _h

theorem populate_eq {σ : Type} (store : σ → Field → Except Fault σ) (limits : Limits)
    (p : Progress σ) :
    populate store limits p =
      match Stream.run (Field.read limits) p.stream with
      | (.error fault, stream) => (.error fault, { p with stream })
      | (.ok none, stream) => (.ok (), { p with stream })
      | (.ok (some f), stream) =>
        match store p.state f with
        | .error fault => (.error fault, { p with stream, fields := f :: p.fields })
        | .ok state => populate store limits { state, stream, fields := f :: p.fields } := by
  rw [populate]
  split <;> rename_i h <;> simp only [h]

/-- The chunks in which a map is written. -/
def chunks (fields : List Field) : List Bytes :=
  fields.flatMap Field.chunks ++ [[Field.separator]]

def encode (fields : List Field) : Bytes := (chunks fields).flatten

/-- A map whose owner knows no field: it can be read only if it is empty, and never written. -/
def storeNone (_ : Unit) (_ : Field) : Except Fault Unit := .error .unimplemented

end FieldMap

/-- The line that a field leaves in the log. -/
def Field.line (f : Field) : String :=
  let key := if f.key.isEmpty then "None" else f.key.hex
  Fault.codeText f.code.toNat ++ " " ++ key ++ " " ++ f.value.hex

end PartialTx
