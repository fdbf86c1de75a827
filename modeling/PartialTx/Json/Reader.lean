import PartialTx.Json.Token

/-! Reading JSON text. The tokens drive a machine that holds the lists and objects
still open; each token is taken by exactly one step. An object that repeats a name
keeps the last value in the first place. -/

namespace PartialTx.Json

/-- A list or an object that is still open; the items of a list are held last first, and an
object waits for the value of a member. -/
inductive Frame
  | list (items : List Value)
  | object (members : List (Text × Value)) (name : Text)

/-- What may come next: a value (or the end of an empty list), a name (or the end of an empty
object), the colon after a name, or what follows a value. -/
inductive Expected
  | value (orClose : Bool)
  | name (members : List (Text × Value)) (orClose : Bool)
  | colon (members : List (Text × Value)) (name : Text)
  | next (v : Value)

structure Machine where
  frames : List Frame
  expected : Expected

namespace Machine

def start : Machine := { frames := [], expected := .value false }

/-- A value is there; it waits for what follows it. -/
def give (frames : List Frame) (v : Value) : Machine := { frames, expected := .next v }

def step (m : Machine) (t : Token) : Option Machine :=
  match m.expected, t with
  | .value _, .scalar v => some (give m.frames v)
  | .value _, .openList => some { frames := .list [] :: m.frames, expected := .value true }
  | .value _, .openObject => some { m with expected := .name [] true }
  | .value true, .closeList =>
    match m.frames with
    | .list items :: frames => some (give frames (.list items.reverse))
    | _ => none
  | .name members _, .scalar (.text name) => some { m with expected := .colon members name }
  | .name members true, .closeObject => some (give m.frames (.object members))
  | .colon members name, .colon =>
    some { frames := .object members name :: m.frames, expected := .value false }
  | .next v, .comma =>
    match m.frames with
    | .list items :: frames =>
      some { frames := .list (v :: items) :: frames, expected := .value false }
    | .object members name :: frames =>
      some { frames, expected := .name (Value.insert name v members) false }
    | [] => none
  | .next v, .closeList =>
    match m.frames with
    | .list items :: frames => some (give frames (.list (v :: items).reverse))
    | _ => none
  | .next v, .closeObject =>
    match m.frames with
    | .object members name :: frames =>
      some (give frames (.object (Value.insert name v members)))
    | _ => none
  | _, _ => none

/-- The value that a machine has come to, if nothing is open. -/
def result? (m : Machine) : Option Value :=
  match m.frames, m.expected with
  | [], .next v => some v
  | _, _ => none

end Machine

/-- The value that a text holds and nothing else; `maxDigits` are the most that a whole number
in it may have. -/
def ofText? (maxDigits : Nat) (s : String) : Option Value := do
  (← (← tokens? maxDigits s.toList).foldlM Machine.step Machine.start).result?

/-- The value in a text given as UTF-8. -/
def ofBytes? (bs : Bytes) : Option Value := do
  ofText? Text.maxDigits (← String.fromUTF8? (ByteArray.mk bs.toArray))

end PartialTx.Json
