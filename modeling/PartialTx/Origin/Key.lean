import PartialTx.Key
import PartialTx.KeyPath.Text
import PartialTx.Origin.Keyed
import PartialTx.Origin.Packed
import PartialTx.Value.Arguments

/-! Key origins: a compressed key with the fingerprint of the root key and the path
that leads to it from there. Only well-formed origins exist. -/

namespace PartialTx

structure KeyOrigin where
  key : Bytes
  fingerprint : Bytes
  path : KeyPath
  key_compressed : Key.isCompressed key
  length_fingerprint : fingerprint.length = 4

namespace KeyOrigin

instance : Keyed KeyOrigin := ⟨key⟩

/-- What counts when origins are compared: flags in a path count as numbers. -/
def parts (o : KeyOrigin) : Bytes × Bytes × List UInt32 := (o.key, o.fingerprint, o.path.numbers)

instance : BEq KeyOrigin := ⟨fun a b => a.parts == b.parts⟩

/-! ### Construction -/

/-- The origin with the given parts, which are checked in order; a part may be missing. -/
def ofParts (key fingerprint : Option Bytes) (path : Except Fault KeyPath) :
    Except Fault KeyOrigin :=
  match key with
  | none => .error .memberMissing
  | some key =>
    if hk : Key.isCompressed key then
      match fingerprint with
      | none => .error .wrongKind
      | some fingerprint =>
        if hf : fingerprint.length = 4 then
          path.map fun path => ⟨key, fingerprint, path, hk, hf⟩
        else .error (.fingerprintLength fingerprint.length)
    else .error (.keyNotCompressed key)

/-- The origin with parts of unchecked kinds: all are converted before any is checked. -/
def ofValues (key fingerprint path : Value) : Except Fault KeyOrigin := do
  let key ← key.toBytes
  let fingerprint ← fingerprint.toBytes
  let steps ← KeyPath.stepsOfValue path
  ofParts key fingerprint (steps.mapM KeyPath.checkStep)

def ofArguments (args : Arguments) : Except Fault KeyOrigin := do
  args.known ["pubkey", "fingerprint", "path"]
  let key ← args.required "pubkey"
  let fingerprint ← args.required "fingerprint"
  let path ← args.required "path"
  ofValues key fingerprint path

/-! ### Fields -/

/-- The value of the field that holds an origin; the key of the field is the key itself. -/
def pack (o : KeyOrigin) : Bytes := Origin.pack o.fingerprint o.path.numbers

/-- The origin in a field. -/
def ofField (key value : Bytes) : Except Fault KeyOrigin := do
  let (fingerprint, path) ← Origin.unpack value
  ofParts (some key) (some fingerprint) (.ok (KeyPath.ofNumbers path))

/-- The origin in a field with key and value of unchecked kinds. -/
def ofFieldValues (key value : Value) : Except Fault KeyOrigin := do
  let (fingerprint, path) ← Origin.unpackValue value
  ofParts (← key.toBytes) (← fingerprint.toBytes) (.ok (KeyPath.ofNumbers path))

@[simp] theorem ofFieldValues_bytes (key value : Bytes) :
    ofFieldValues (.bytes key) (.bytes value) = ofField key value := by
  unfold ofFieldValues ofField
  rw [Origin.unpackValue_bytes]
  rcases Origin.unpack value with _ | ⟨fingerprint, path⟩ <;> rfl

/-! ### Views -/

def toValue (o : KeyOrigin) : Value :=
  .object [("pubkey", .text o.key.hex), ("fingerprint", .text o.fingerprint.hex),
    ("path", .text (KeyPath.toText KeyPath.usualMark o.path))]

/-- The elements of a sequence between parentheses; a single one has a comma after it. -/
def sequenceText (items : List String) : String :=
  match items with
  | [item] => "(" ++ item ++ ",)"
  | items => "(" ++ ", ".intercalate items ++ ")"

def pathText (p : KeyPath) : String := sequenceText (p.map ChildIndex.shown)

def describe (o : KeyOrigin) : String :=
  "Bip32Derivation(pubkey=" ++ Text.quoted o.key.hex
    ++ ", fingerprint=" ++ Text.quoted o.fingerprint.hex
    ++ ", path=" ++ pathText o.path ++ ")"

end KeyOrigin

end PartialTx
