import PartialTx.Value.Access
import PartialTx.Value.Equality

/-! What may stand as a script or a tree in a record. Maps hold byte strings only. A
record that a caller fills holds whatever it is given, byte string or not. -/

namespace PartialTx

class Script (σ : Type) extends BEq σ where
  ofBytes : Bytes → σ

instance : Script Bytes where
  ofBytes := id

instance : Script Value where
  ofBytes := .bytes

namespace Script

/-- The script that a caller gives; null stands for none. -/
def given (v : Value) : Except Fault (Option Value) := .ok (if v.isNull then none else some v)

/-- A byte string stands for itself as a script. -/
def KeepsBytes {σ : Type} [Script σ] (scriptOf : Value → Except Fault (Option σ)) : Prop :=
  ∀ bs, scriptOf (.bytes bs) = .ok (some (ofBytes bs))

theorem keepsBytes_given : KeepsBytes given := fun _ => rfl

end Script

end PartialTx
