import PartialTx.Output.Basic

/-! Records as plain values and as one line of text. -/

namespace PartialTx.Output

/-- A text that may be missing. -/
def viewText (t : Option String) : Value := (t.map fun s => Value.text s).getD .null

/-- A record with its scripts as they show. -/
def view (r : Output String) : Value :=
  .object [("redeem_script", viewText r.redeemScript),
    ("witness_script", viewText r.witnessScript),
    ("bip32_derivations", .list ((Keyed.sort r.keyOrigins).map KeyOrigin.toValue)),
    ("tap_internal_key", viewText (r.tapInternalKey.map Bytes.hex)),
    ("tap_tree", viewText r.tapTree),
    ("tap_bip32_derivations", .list ((TapOrigin.sort r.tapOrigins).map TapOrigin.toValue))]

def toValue (r : Output Bytes) : Value := (r.map Bytes.hex).view

/-- The view of a record that a caller has filled, if all its scripts have a hexadecimal form. -/
def viewOfGiven (r : Output Value) : Except Fault Value := do
  return (← r.mapM Value.hexForm).view

def describe (r : Output Value) : Except Fault String := do
  return "<PSTOutput " ++ (← (← r.viewOfGiven).shown) ++ ">"

end PartialTx.Output
