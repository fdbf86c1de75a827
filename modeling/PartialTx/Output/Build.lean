import PartialTx.Output.Store

/-! Building a record from its parts. -/

namespace PartialTx.Output

/-- The record with the given fields. The internal key is checked first; then the origins
are added one by one. -/
def ofParts {σ : Type} (redeemScript witnessScript : Option σ) (tapInternalKey : Option Bytes)
    (tapTree : Option σ) (keyOrigins : List KeyOrigin) (tapOrigins : List TapOrigin) :
    Except Fault (Output σ) := do
  if let some key := tapInternalKey then
    if !Key.isXOnly key then throw (.internalKeyInvalid key.hex)
  let r ← keyOrigins.foldlM addKeyOrigin { redeemScript, witnessScript, tapInternalKey, tapTree }
  tapOrigins.foldlM addTapOrigin r

/-- The arguments for one entry of a list. -/
def argumentsOfValue : Value → Except Fault Arguments
  | .object members => .ok members
  | _ => .error .wrongKind

/-- The entries in an argument, one for each of its elements; null stands for none. -/
def entriesOfValue {α : Type} (ofArguments : Arguments → Except Fault α) :
    Value → Except Fault (List α)
  | .null => .ok []
  | v => do (← v.elements).mapM fun item => do ofArguments (← argumentsOfValue item)

/-- The record with the fields in the arguments, all of which may be left out. Entries are
built before anything else is looked at, and scripts are looked at last. -/
def ofArgumentsWith {σ : Type} (scriptOf : Value → Except Fault (Option σ)) (args : Arguments) :
    Except Fault (Output σ) := do
  let argument (name : Text) := args.optional name .null
  let keyOrigins ← entriesOfValue KeyOrigin.ofArguments (argument "bip32_derivations")
  let tapOrigins ← entriesOfValue TapOrigin.ofArguments (argument "tap_bip32_derivations")
  args.known ["redeem_script", "witness_script", "bip32_derivations", "tap_internal_key",
    "tap_tree", "tap_bip32_derivations"]
  let internalKey := argument "tap_internal_key"
  if !internalKey.isNull && !Key.hasForm Key.isXOnly internalKey then
    throw (.internalKeyInvalid (← internalKey.hexForm))
  let r : Output σ ← ofParts none none internalKey.bytes? none keyOrigins tapOrigins
  return { r with
    redeemScript := ← scriptOf (argument "redeem_script")
    witnessScript := ← scriptOf (argument "witness_script")
    tapTree := ← scriptOf (argument "tap_tree") }

/-- The record that a caller builds. -/
def ofArguments (args : Arguments) : Except Fault (Output Value) :=
  ofArgumentsWith Script.given args

end PartialTx.Output
