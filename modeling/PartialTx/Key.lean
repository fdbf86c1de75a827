import PartialTx.Value.Basic

/-! The two forms of a public key, told by length and first byte alone: a compressed
key has 33 bytes and starts with 02 or 03, an x-only key has 32 bytes. -/

namespace PartialTx.Key

def isCompressed (key : Bytes) : Bool :=
  key.length == 33 && (key.head? == some 2 || key.head? == some 3)

def isXOnly (key : Bytes) : Bool := key.length == 32

/-- Whether an unchecked value is a byte string of a form. -/
def hasForm (form : Bytes → Bool) (v : Value) : Bool := v.bytes?.any form

end PartialTx.Key
