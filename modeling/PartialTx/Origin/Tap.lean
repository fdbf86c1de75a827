import PartialTx.Origin.Key

/-! Origins of keys used in tap leaves: an x-only key with the hashes of the leaves in
which it occurs, the fingerprint of the root key and the path. -/

namespace PartialTx

structure TapOrigin where
  key : Bytes
  leafHashes : List Bytes
  fingerprint : Bytes
  path : KeyPath
  key_xOnly : Key.isXOnly key
  length_leafHash : ∀ h ∈ leafHashes, h.length = Origin.leafHashLength
  length_fingerprint : fingerprint.length = 4

namespace TapOrigin

instance : Keyed TapOrigin := ⟨key⟩

/-- What counts when origins are compared: flags in a path count as numbers. -/
def parts (o : TapOrigin) : Bytes × List Bytes × Bytes × List UInt32 :=
  (o.key, o.leafHashes, o.fingerprint, o.path.numbers)

instance : BEq TapOrigin := ⟨fun a b => a.parts == b.parts⟩

/-- Origins in the order in which they are written. -/
def sort (origins : List TapOrigin) : List TapOrigin := Keyed.sortWith Keyed.compare origins

/-! ### Construction -/

/-- A leaf hash that is there and has the right length. -/
def checkLeafHash : Option Bytes → Except Fault Bytes
  | none => .error .wrongKind
  | some hash =>
    if hash.length = Origin.leafHashLength then .ok hash
    else .error (.leafHashLength hash.length)

theorem length_of_mem_mapM_checkLeafHash {hashes : List (Option Bytes)} {checked : List Bytes}
    (h : hashes.mapM checkLeafHash = .ok checked) :
    ∀ hash ∈ checked, hash.length = Origin.leafHashLength := by
  induction hashes generalizing checked with
  | nil => cases h; simp
  | cons hash rest ih =>
    rw [List.mapM_cons] at h
    rcases hash with _ | hash
    · cases h
    · by_cases hl : hash.length = Origin.leafHashLength
      · rcases hr : rest.mapM checkLeafHash with fault | others
        · simp [checkLeafHash, hl, hr, bind, Except.bind] at h
        · simp only [checkLeafHash, hl, hr, bind, Except.bind, pure, Except.pure, if_true,
            Except.ok.injEq] at h
          subst h
          exact List.forall_mem_cons.2 ⟨hl, ih hr⟩
      · simp [checkLeafHash, hl, bind, Except.bind] at h

/-- The origin with the given parts, which are checked in order; a part may be missing. -/
def ofParts (key : Option Bytes) (leafHashes : List (Option Bytes)) (fingerprint : Option Bytes)
    (path : Except Fault KeyPath) : Except Fault TapOrigin :=
  match key with
  | none => .error .memberMissing
  | some key =>
    if hk : Key.isXOnly key then
      match hl : leafHashes.mapM checkLeafHash with
      | .error fault => .error fault
      | .ok leafHashes =>
        match fingerprint with
        | none => .error .wrongKind
        | some fingerprint =>
          if hf : fingerprint.length = 4 then
            path.map fun path =>
              ⟨key, leafHashes, fingerprint, path, hk,
                length_of_mem_mapM_checkLeafHash hl, hf⟩
          else .error (.fingerprintLength fingerprint.length)
    else .error (.keyNotXOnly key)

/-- The origin with parts of unchecked kinds: all are converted before any is checked. -/
def ofValues (key leafHashes fingerprint path : Value) : Except Fault TapOrigin := do
  let key ← key.toBytes
  let leafHashes ← (← leafHashes.elements).mapM Value.toBytes
  let fingerprint ← fingerprint.toBytes
  let steps ← KeyPath.stepsOfValue path
  ofParts key leafHashes fingerprint (steps.mapM KeyPath.checkStep)

/-- The leaf hashes may be left out. -/
def ofArguments (args : Arguments) : Except Fault TapOrigin := do
  args.known ["xonly_pubkey", "leaf_hashes", "fingerprint", "path"]
  let key ← args.required "xonly_pubkey"
  let fingerprint ← args.required "fingerprint"
  let path ← args.required "path"
  ofValues key (args.optional "leaf_hashes" (.list [])) fingerprint path

/-! ### Fields -/

/-- The value of the field that holds an origin; the key of the field is the key itself. -/
def pack (o : TapOrigin) : Bytes := Origin.packTap o.leafHashes o.fingerprint o.path.numbers

/-- The origin in a field. -/
def ofField (key value : Bytes) : Except Fault TapOrigin := do
  let (leafHashes, fingerprint, path) ← Origin.unpackTap value
  ofParts (some key) (leafHashes.map some) (some fingerprint) (.ok (KeyPath.ofNumbers path))

/-- The origin in a field with key and value of unchecked kinds. -/
def ofFieldValues (key value : Value) : Except Fault TapOrigin := do
  let (leafHashes, fingerprint, path) ← Origin.unpackTapValue value
  ofParts (← key.toBytes) (leafHashes.map some) (some fingerprint)
    (.ok (KeyPath.ofNumbers path))

@[simp] theorem ofFieldValues_bytes (key value : Bytes) :
    ofFieldValues (.bytes key) (.bytes value) = ofField key value := by
  unfold ofFieldValues ofField
  rw [Origin.unpackTapValue_bytes]
  rcases Origin.unpackTap value with _ | ⟨leafHashes, fingerprint, path⟩ <;> rfl

/-! ### Views -/

def toValue (o : TapOrigin) : Value :=
  .object [("xonly_pubkey", .text o.key.hex),
    ("leaf_hashes", .list (o.leafHashes.map fun h => .text h.hex)),
    ("fingerprint", .text o.fingerprint.hex),
    ("path", .text (KeyPath.toText KeyPath.usualMark o.path))]

def describe (o : TapOrigin) : String :=
  "TaprootBip32Derivation(xonly_pubkey=" ++ Text.quoted o.key.hex
    ++ ", leaf_hashes=" ++ KeyOrigin.sequenceText (o.leafHashes.map Text.quotedBytes)
    ++ ", fingerprint=" ++ Text.quoted o.fingerprint.hex
    ++ ", path=" ++ KeyOrigin.pathText o.path ++ ")"

end TapOrigin

end PartialTx
