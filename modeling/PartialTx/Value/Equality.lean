import PartialTx.Value.Basic

/-! Equality of values: flags and numbers of both kinds count by value, byte strings of
both kinds by content, lists by their items and objects by what they hold under each
name. NaN differs from itself. Inside a list or an object it does not, as there the same
thing needs no comparison, and there is only one NaN. -/

namespace PartialTx.Value

def isNan : Value → Bool
  | float x => x == .nan
  | _ => false

/-- Equality of values that hold no others. -/
def equalsPlain (a b : Value) : Bool :=
  match a, b with
  | null, null => true
  | text s, text t => s == t
  | float x, float y => x.equals y
  | float x, v | v, float x => x.whole?.any fun n => some n == v.int?
  | a, b =>
    (a.bytes?.any fun bs => some bs == b.bytes?) || a.int?.any fun n => some n == b.int?

mutual

def equals : Value → Value → Bool
  | list xs, list ys => equalItems xs ys
  | object xs, object ys => xs.length == ys.length && equalMembers xs ys
  | a, b => equalsPlain a b

def equalItems : List Value → List Value → Bool
  | [], [] => true
  | a :: xs, b :: ys => (a.isNan && b.isNan || equals a b) && equalItems xs ys
  | _, _ => false

/-- Whether an object has these members, in whatever order. -/
def equalMembers : List (Text × Value) → List (Text × Value) → Bool
  | [], _ => true
  | (name, a) :: rest, ys =>
    ((ys.lookup name).any fun b => a.isNan && b.isNan || equals a b) && equalMembers rest ys

end

instance : BEq Value := ⟨equals⟩

end PartialTx.Value
