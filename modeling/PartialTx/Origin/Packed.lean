import PartialTx.CompactSize
import PartialTx.KeyPath.Basic

/-! The packed form of a key origin: the fingerprint of the root key, four bytes, and
the child indices as words of four bytes. The origin of a key used in tap leaves has
the number of leaf hashes and the hashes, 32 bytes each, in front. -/

namespace PartialTx.Origin

def leafHashLength : Nat := 32

/-! ### Writing -/

def packPath (ns : List UInt32) : Bytes := ns.flatMap fun n => Bytes.ofWord 4 n.toNat

def pack (fingerprint : Bytes) (ns : List UInt32) : Bytes := fingerprint ++ packPath ns

def packTap (leafHashes : List Bytes) (fingerprint : Bytes) (ns : List UInt32) : Bytes :=
  CompactSize.encode leafHashes.length ++ leafHashes.flatten ++ pack fingerprint ns

/-! ### Reading -/

def unpackPath (bs : Bytes) : List UInt32 :=
  (Bytes.pieces 4 bs).map fun piece => UInt32.ofNat (Bytes.toWord piece)

/-- The fingerprint and the path in a packed origin. -/
def unpack (packed : Bytes) : Except Fault (Bytes × List UInt32) :=
  if packed.length < 4 ∨ packed.length % 4 ≠ 0 then .error (.originLength packed)
  else .ok (packed.take 4, unpackPath (packed.drop 4))

/-- The leaf hashes, the fingerprint and the path in a packed origin. The shortest one has a
size and a fingerprint. A number of leaf hashes that is missing is no number, and only faults
that reading a map gives rise to are told as its causes. -/
def unpackTap (packed : Bytes) : Except Fault (List Bytes × Bytes × List UInt32) :=
  if packed.length < 5 then .error (.tapOriginTooShort packed.length)
  else
    match Stream.run CompactSize.read (.ofBytes packed) with
    | (.error fault, _) => .error (if fault.isCodec then .leafCountUnreadable fault else fault)
    | (.ok none, _) => .error .wrongKind
    | (.ok (some count), s) =>
      let size := count * leafHashLength
      if s.remaining < size + 4 then .error (.tapOriginTooShortFor count packed.length)
      else do
        let (fingerprint, path) ← unpack (s.rest.drop size)
        return (Bytes.pieces leafHashLength (s.rest.take size), fingerprint, path)

/-! ### Unchecked parts -/

/-- A step as four bytes. -/
def packStep (v : Value) : Except Fault Bytes :=
  match v.int? with
  | some n =>
    if 0 ≤ n ∧ n < Bytes.wordCount 4 then .ok (Bytes.ofWord 4 n.toNat) else .error .numberTooGreat
  | none => .error .memberMissing

/-- Packs a fingerprint and a path of unchecked kinds. -/
def packValues (fingerprint path : Value) : Except Fault Bytes := do
  if (← fingerprint.length) ≠ 4 then
    match fingerprint.bytes? with
    | some bs => throw (.packedFingerprintLength bs)
    | none => throw .memberMissing
  let steps ← (← path.elements).mapM packStep
  return (← fingerprint.content) ++ steps.flatten

/-- A leaf hash must have its length before anything is packed; its kind shows later. -/
def checkLeafHash (v : Value) : Except Fault Unit := do
  let n ← v.length
  if n = leafHashLength then return () else throw (.leafHashLength n)

def packTapValues (leafHashes fingerprint path : Value) : Except Fault Bytes := do
  let hashes ← leafHashes.elements
  hashes.forM checkLeafHash
  let joined ← hashes.mapM Value.content
  return CompactSize.encode hashes.length ++ joined.flatten ++ (← packValues fingerprint path)

/-- The word in a piece of a sequence. -/
def wordOfItems (items : List Value) : Except Fault UInt32 := do
  return UInt32.ofNat (Bytes.toWord (← items.mapM Value.toByte))

/-- Cuts a sequence into pieces of four. -/
def fours : List Value → List (List Value)
  | a :: b :: c :: d :: rest => [a, b, c, d] :: fours rest
  | _ => []

/-- Unpacks a value of any kind that can be cut like a byte string. The fingerprint has the
kind of the whole. -/
def unpackValue (packed : Value) : Except Fault (Value × List UInt32) := do
  match packed.bytes? with
  | some bs =>
    let (fingerprint, path) ← unpack bs
    return (.bytes fingerprint, path)
  | none =>
    let n ← packed.length
    if n < 4 ∨ n % 4 ≠ 0 then throw .memberMissing
    match packed with
    | .text _ => if n = 4 then return (packed, []) else throw .wrongKind
    | .list items => return (.list (items.take 4), ← (fours (items.drop 4)).mapM wordOfItems)
    | _ => throw .wrongKind

theorem unpackValue_bytes (packed : Bytes) :
    unpackValue (.bytes packed) = (unpack packed).map fun o => (.bytes o.1, o.2) := by
  unfold unpackValue
  rcases h : unpack packed with _ | o <;>
    simp [Value.bytes?, h, bind, Except.bind, pure, Except.pure, Except.map]

def unpackTapValue (packed : Value) : Except Fault (List Bytes × Bytes × List UInt32) := do
  match packed.bytes? with
  | some bs => unpackTap bs
  | none =>
    let n ← packed.length
    if n < 5 then throw (.tapOriginTooShort n) else throw .wrongKind

@[simp] theorem unpackTapValue_bytes (packed : Bytes) :
    unpackTapValue (.bytes packed) = unpackTap packed := rfl

end PartialTx.Origin
