import PartialTx.FieldType
import PartialTx.Origin.Tap
import PartialTx.Output.Script

/-! The record of one output: scripts, the taproot internal key and tree, and the
origins of the keys that occur in it. Records are equal if they have the same fields,
in whatever order the origins were added. -/

namespace PartialTx

/-- `σ` is what stands as a script or a tree. -/
structure Output (σ : Type) where
  redeemScript : Option σ := none
  witnessScript : Option σ := none
  keyOrigins : List KeyOrigin := []
  tapInternalKey : Option Bytes := none
  tapTree : Option σ := none
  tapOrigins : List TapOrigin := []

namespace Output

variable {σ τ : Type}

/-- No key has two origins, and the internal key has the form of one. -/
structure WellFormed (r : Output σ) : Prop where
  keyOrigins_distinct : Keyed.Distinct r.keyOrigins
  tapOrigins_distinct : Keyed.Distinct r.tapOrigins
  internalKey_xOnly : ∀ key, r.tapInternalKey = some key → Key.isXOnly key

def isEmpty (r : Output σ) : Bool :=
  r.redeemScript.isNone && r.witnessScript.isNone && r.keyOrigins.isEmpty
    && r.tapInternalKey.isNone && r.tapTree.isNone && r.tapOrigins.isEmpty

instance [BEq σ] : BEq (Output σ) where
  beq a b :=
    a.redeemScript == b.redeemScript && a.witnessScript == b.witnessScript
      && Keyed.sort a.keyOrigins == Keyed.sort b.keyOrigins
      && a.tapInternalKey == b.tapInternalKey && a.tapTree == b.tapTree
      && TapOrigin.sort a.tapOrigins == TapOrigin.sort b.tapOrigins

/-- A record with its scripts changed. -/
def map (f : σ → τ) (r : Output σ) : Output τ :=
  { r with
    redeemScript := r.redeemScript.map f
    witnessScript := r.witnessScript.map f
    tapTree := r.tapTree.map f }

/-- A record with its scripts changed, if all of them can be. -/
def mapM (f : σ → Except Fault τ) (r : Output σ) : Except Fault (Output τ) := do
  return { r with
    redeemScript := ← r.redeemScript.mapM f
    witnessScript := ← r.witnessScript.mapM f
    tapTree := ← r.tapTree.mapM f }

/-! ### Origins -/

/-- The origin of a key. -/
def keyOrigin? (r : Output σ) (key : Bytes) : Option KeyOrigin := Keyed.find? key r.keyOrigins

def tapOrigin? (r : Output σ) (key : Bytes) : Option TapOrigin := Keyed.find? key r.tapOrigins

/-- Adds an origin at the end; a key has one only. -/
def addKeyOrigin (r : Output σ) (o : KeyOrigin) : Except Fault (Output σ) :=
  match Keyed.add? r.keyOrigins o with
  | some keyOrigins => .ok { r with keyOrigins }
  | none => .error (.duplicateKey .keyOrigin o.key)

def addTapOrigin (r : Output σ) (o : TapOrigin) : Except Fault (Output σ) :=
  match Keyed.add? r.tapOrigins o with
  | some tapOrigins => .ok { r with tapOrigins }
  | none => .error (.duplicateKey .tapKeyOrigin o.key)

/-! ### Combination -/

/-- A record with the fields of another copy of it, which take precedence. -/
def combine (r other : Output σ) : Output σ where
  redeemScript := other.redeemScript <|> r.redeemScript
  witnessScript := other.witnessScript <|> r.witnessScript
  keyOrigins := Keyed.override r.keyOrigins other.keyOrigins
  tapInternalKey := other.tapInternalKey <|> r.tapInternalKey
  tapTree := other.tapTree <|> r.tapTree
  tapOrigins := Keyed.override r.tapOrigins other.tapOrigins

end Output

end PartialTx
