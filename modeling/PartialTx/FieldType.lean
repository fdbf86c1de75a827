import PartialTx.Value.Basic

/-! The types of field that an output map may hold. -/

namespace PartialTx

inductive FieldType
  | redeemScript
  | witnessScript
  | keyOrigin
  | tapInternalKey
  | tapTree
  | tapKeyOrigin
  deriving DecidableEq, Repr

namespace FieldType

/-- All types, by ascending code. -/
def all : List FieldType :=
  [redeemScript, witnessScript, keyOrigin, tapInternalKey, tapTree, tapKeyOrigin]

/-- The byte that stands for a type on the wire. -/
def code : FieldType → UInt8
  | redeemScript => 1
  | witnessScript => 2
  | keyOrigin => 3
  | tapInternalKey => 4
  | tapTree => 5
  | tapKeyOrigin => 6

def ofCode? (code : UInt8) : Option FieldType := all.find? fun t => t.code == code

def name : FieldType → String
  | redeemScript => "REDEEM_SCRIPT"
  | witnessScript => "WITNESS_SCRIPT"
  | keyOrigin => "BIP32_DERIVATION"
  | tapInternalKey => "TAP_INTERNAL_KEY"
  | tapTree => "TAP_TREE"
  | tapKeyOrigin => "TAP_BIP32_DERIVATION"

def label (t : FieldType) : String :=
  "<PSTOutputType." ++ t.name ++ ": " ++ toString t.code.toNat ++ ">"

end FieldType

end PartialTx
