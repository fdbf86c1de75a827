import PartialTx.Value.Access

/-! Key paths: the child indices that lead from a root key to a derived one. The
highest bit of an index marks a hardened child. -/

namespace PartialTx

/-- A step of a path. Callers may write one and zero as flags; such a step is kept as it
was given, and differs from the number in its text alone. -/
inductive ChildIndex
  | index (n : UInt32)
  | flag (b : Bool)
  deriving DecidableEq, Repr

abbrev KeyPath := List ChildIndex

namespace ChildIndex

def number : ChildIndex → UInt32
  | index n => n
  | flag b => if b then 1 else 0

def toValue : ChildIndex → Value
  | index n => .int n.toNat
  | flag b => .bool b

/-- A step as it was given, in figures or as a flag. -/
def shown : ChildIndex → String
  | index n => toString n.toNat
  | flag b => Value.boolText b

/-- The step that an unchecked value stands for: a flag, or a number of 32 bits. -/
def ofValue? : Value → Option ChildIndex
  | .bool b => some (flag b)
  | .int n => if 0 ≤ n ∧ n < Bytes.wordCount 4 then some (index (UInt32.ofNat n.toNat)) else none
  | _ => none

/-- The least index of a hardened child. -/
def hardened : Nat := 0x80000000

def isHardened (i : ChildIndex) : Bool := hardened ≤ i.number.toNat

theorem ofValue?_toValue (i : ChildIndex) : ofValue? i.toValue = some i := by
  cases i with
  | flag b => rfl
  | index n =>
    have h := n.toNat_lt
    simp only [toValue, ofValue?]
    rw [if_pos ⟨Int.natCast_nonneg _, Int.ofNat_lt.2 h⟩]
    simp

end ChildIndex

namespace KeyPath

def ofNumbers (ns : List UInt32) : KeyPath := ns.map .index

/-- The path with its flags read as numbers. -/
def numbers (p : KeyPath) : List UInt32 := p.map ChildIndex.number

@[simp] theorem numbers_ofNumbers (ns : List UInt32) : numbers (ofNumbers ns) = ns := by
  simp [numbers, ofNumbers, Function.comp_def, ChildIndex.number]

end KeyPath

end PartialTx
