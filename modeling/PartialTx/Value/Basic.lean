import PartialTx.Binary64.Shortest
import PartialTx.Text.Numeral
import PartialTx.Text.Quoted

/-! Values of unknown kind: what callers hand over before it is checked, what a
settings file holds, and what a record shows of itself. -/

namespace PartialTx

/-- A `buffer` is a byte string of its own kind that can be written to; the members of
an object keep their order, and a name occurs once. -/
inductive Value
  | null
  | bool (b : Bool)
  | int (n : Int)
  | float (x : Binary64)
  | text (t : Text)
  | bytes (bs : Bytes)
  | buffer (bs : Bytes)
  | list (items : List Value)
  | object (members : List (Text × Value))
  deriving Inhabited

namespace Value

/-- The byte string that a value is, of either kind. -/
def bytes? : Value → Option Bytes
  | bytes bs | buffer bs => some bs
  | _ => none

def isNull : Value → Bool
  | null => true
  | _ => false

/-- Null, false, zero and whatever is empty count as false; all else counts as true. -/
def truth : Value → Bool
  | null => false
  | bool b => b
  | int n => n != 0
  | float x => !x.isZero
  | text t => !t.isEmpty
  | bytes bs | buffer bs => !bs.isEmpty
  | list items => !items.isEmpty
  | object members => !members.isEmpty

/-- The whole number that an integer or a flag is. -/
def int? : Value → Option Int
  | int n => some n
  | bool b => some (if b then 1 else 0)
  | _ => none

/-- Members with a name set to a value: in its old place, or at the end. -/
def insert (name : Text) (v : Value) : List (Text × Value) → List (Text × Value)
  | [] => [(name, v)]
  | (n, w) :: rest => if n == name then (n, v) :: rest else (n, w) :: insert name v rest

def boolText (b : Bool) : String := if b then "True" else "False"

mutual

/-- A value as it appears inside another: texts are quoted. A whole number without a numeral has
no such form, and neither has a list or an object that holds one. -/
def quoted? : Value → Option String
  | null => some "None"
  | bool b => some (boolText b)
  | int n => Text.ofInt? n
  | float x => some x.text
  | text t => some (Text.quoted t)
  | bytes bs => some (Text.quotedBytes bs)
  | buffer bs => some (Text.quotedBuffer bs)
  | list items => do return "[" ++ ", ".intercalate (← quotedItems? items) ++ "]"
  | object members => do return "\x7b" ++ ", ".intercalate (← quotedMembers? members) ++ "\x7d"

def quotedItems? : List Value → Option (List String)
  | [] => some []
  | v :: rest => do return (← quoted? v) :: (← quotedItems? rest)

def quotedMembers? : List (Text × Value) → Option (List String)
  | [] => some []
  | (name, v) :: rest => do
    return (Text.quoted name ++ ": " ++ (← quoted? v)) :: (← quotedMembers? rest)

end

/-- A value as text: a text stands for itself. -/
def display? : Value → Option Text
  | text t => some t
  | v => v.quoted?.map Text.ofString

end Value

end PartialTx
