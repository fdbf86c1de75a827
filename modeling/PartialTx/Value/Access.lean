import PartialTx.Binary64.HexText
import PartialTx.Fault

/-! What an unchecked value can be asked for: its length, its elements, its bytes, a
comparison with a size. A value of the wrong kind is refused with a fault. -/

namespace PartialTx.Value

def length : Value → Except Fault Nat
  | text t => .ok t.length
  | bytes bs | buffer bs => .ok bs.length
  | list items => .ok items.length
  | object members => .ok members.length
  | _ => .error .wrongKind

/-- The elements of a text are its code points, those of a byte string its numbers, and those
of an object its names. -/
def elements : Value → Except Fault (List Value)
  | text t => .ok (t.map fun p => text [p])
  | bytes bs | buffer bs => .ok (bs.map fun b => int b.toNat)
  | list items => .ok items
  | object members => .ok (members.map fun m => text m.1)
  | _ => .error .wrongKind

/-- A value as it appears inside another. -/
def shown (v : Value) : Except Fault String :=
  match v.quoted? with
  | some s => .ok s
  | none => .error .numberTooLong

/-- Byte strings and floating-point numbers have a hexadecimal form. -/
def hexForm : Value → Except Fault String
  | bytes bs | buffer bs => .ok bs.hex
  | float x => .ok x.hexText
  | _ => .error .memberMissing

/-- Whether a size is above a limit; any number may serve as a limit. -/
def exceededBy (limit : Value) (size : Nat) : Except Fault Bool :=
  match limit with
  | int n => .ok (n < size)
  | bool b => .ok (b.toNat < size)
  | float x => .ok (x.below size)
  | _ => .error .wrongKind

/-- The content of a value that can be written to a stream. -/
def content : Value → Except Fault Bytes
  | bytes bs | buffer bs => .ok bs
  | _ => .error .wrongKind

def toByte (v : Value) : Except Fault UInt8 :=
  match v.int? with
  | some n => if 0 ≤ n ∧ n < 256 then .ok (UInt8.ofNat n.toNat) else .error .byteOutOfRange
  | none => .error .wrongKind

/-- Sizes and positions are below this, and above its negative if they have a sign. -/
def sizeBound : Nat := 0x8000000000000000

/-- Whether a number can serve as a size or a position at all. -/
def isSize (n : Int) : Bool := decide (-sizeBound ≤ n) && decide (n < sizeBound)

/-- What a byte string takes up besides its bytes; both together stay below `sizeBound`. -/
def overhead : Nat := 33

/-- Byte strings that a number asks for are shorter than this. That there is no room for longer
ones is an assumption about the machine. -/
def roomBound : Nat := 0x100000000

/-- Refuses lengths that no byte string can have. -/
def checkLength (length : Nat) : Except Fault Unit :=
  if sizeBound ≤ length + overhead then .error .numberTooGreat
  else if roomBound ≤ length then .error .memoryExhausted
  else .ok ()

/-- The bytes that a caller means: a byte string itself, hexadecimal text, a list of byte
values, or a number of zero bytes. Null stays null. -/
def toBytes : Value → Except Fault (Option Bytes)
  | null => .ok none
  | bytes bs | buffer bs => .ok (some bs)
  | text t =>
    match Bytes.ofHex? t with
    | some bs => .ok (some bs)
    | none => .error .hexInvalid
  | float _ => .error .wrongKind
  | list items => (items.mapM toByte).map some
  | object members => (members.mapM fun m => toByte (text m.1)).map some
  | v =>
    match v.int? with
    | some n =>
      if !isSize n then .error .numberTooGreat
      else if n < 0 then .error .countNegative
      else (checkLength n.toNat).map fun _ => some (List.replicate n.toNat 0)
    | none => .error .wrongKind

/-- How a byte string shows in the text of an entry: quoted hexadecimal digits. -/
def shownBytes (v : Value) : Except Fault String :=
  match v with
  | null => .ok "None"
  | v => v.hexForm.map fun digits => Text.quoted digits

end PartialTx.Value
