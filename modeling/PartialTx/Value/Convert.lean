import PartialTx.Binary64.Literal
import PartialTx.Value.Access

/-! Conversions of an unchecked value to a whole number, a floating-point number, a
truth value or a text. -/

namespace PartialTx.Value

/-- The numeral in a text, or in the ASCII characters of a byte string. -/
def numeral? : Value → Option (List Char)
  | text t => some (Text.numeral t)
  | bytes bs | buffer bs =>
    some (Text.trim Text.isBlank (bs.map fun b => Char.ofNat b.toNat))
  | _ => none

def toInt (v : Value) : Except Fault Int :=
  match v with
  | int n => .ok n
  | bool b => .ok b.toNat
  | float x =>
    match x.truncate? with
    | some n => .ok n
    | none => if x = .nan then .error .numeralInvalid else .error .numberTooGreat
  | v =>
    match v.numeral? with
    | some cs =>
      match Text.int? cs with
      | some n => .ok n
      | none => .error .numeralInvalid
    | none => .error .wrongKind

def ofFinite (x : Binary64) : Except Fault Binary64 :=
  match x with
  | .infinite _ => .error .numberTooGreat
  | x => .ok x

def toFloat (v : Value) : Except Fault Binary64 :=
  match v with
  | float x => .ok x
  | int n => ofFinite (Binary64.ofInt n)
  | bool b => .ok (Binary64.ofInt b.toNat)
  | v =>
    match v.numeral? with
    | some cs =>
      match Binary64.ofLiteral? cs with
      | some x => .ok x
      | none => .error .numeralInvalid
    | none => .error .wrongKind

end PartialTx.Value
