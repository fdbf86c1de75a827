import PartialTx.Settings.Basic
import PartialTx.Value.Convert
import PartialTx.Value.Equality

/-! Variables: keys with a default and a kind to which what is set for them is
converted. A registry holds the variables that have been defined; no two of them
share a key. -/

namespace PartialTx.Settings

/-- What a value can be converted to. -/
inductive Target
  | int
  | text
  | bool
  | float
  deriving DecidableEq, Repr

namespace Target

def name : Target → String
  | int => "int"
  | text => "str"
  | bool => "bool"
  | float => "float"

def ofName? (name : Text) : Option Target :=
  [int, text, bool, float].find? fun t => name == t.name

def convert (t : Target) (v : Value) : Except Fault Value :=
  match t with
  | int => v.toInt.map .int
  | text =>
    match v.display? with
    | some t => .ok (.text t)
    | none => .error .numberTooLong
  | bool => .ok (.bool v.truth)
  | float => v.toFloat.map .float

end Target

/-- The key and the description may be of any kind; as a key other than a text is never set,
its variable always has the default. -/
structure Variable where
  key : Value
  default : Value := .null
  target : Option Target := none
  description : Value := .null

namespace Variable

/-- Converts a value that is set. A value that cannot be read as the target is a fault of the
setting, but a number too great for the target is not. -/
def convert (x : Variable) (v : Value) : Except Fault Value :=
  match x.target with
  | none => .ok v
  | some target =>
    match target.convert v with
    | .ok w => .ok w
    | .error fault =>
      if fault.kind = .badValue ∨ fault.kind = .badKind then
        .error (.settingUnreadable x.key v target.name)
      else .error fault

/-- What is set for a variable, converted; its default if nothing is. -/
def read (x : Variable) (s : Settings) : Except Fault Value := do
  let v ← s.get x.key .null
  if v.isNull then return x.default else x.convert v

def isSet (x : Variable) (s : Settings) : Except Fault Bool := s.isSet x.key

/-- How a variable shows itself. -/
def label (x : Variable) : Except Fault String := do
  return "<ConfigVar key=" ++ (← x.key.shown) ++ ">"

/-- Key, default, description and label. -/
def info (x : Variable) : Except Fault (List Value) := do
  return [x.key, x.default, x.description, .text (← x.label)]

/-! ### The variables of the codec -/

def maxValueLength : Variable where
  key := .text "pst_max_value_length"
  default := .int 4000000
  target := some .int
  description := .text "Largest value (in bytes) accepted for a single PST field"

def maxKeyLength : Variable where
  key := .text "pst_max_key_length"
  default := .int 10000
  target := some .int
  description := .text "Largest key data (in bytes) accepted for a single PST field"

def debugParsing : Variable where
  key := .text "debug_pst_parsing"
  default := .bool false
  target := some .bool

def verbosity : Variable where
  key := .text "verbosity"
  target := some .text

end Variable

/-! ### Registries -/

/-- Variables with their names, the latest first; a name may be used again. -/
abbrev Registry := List (Text × Variable)

namespace Registry

/-- The variables that are always there. -/
def builtIn : Registry :=
  [("PST_MAX_VALUE_LENGTH", Variable.maxValueLength), ("PST_MAX_KEY_LENGTH", Variable.maxKeyLength),
    ("DEBUG_PST_PARSING", Variable.debugParsing), ("LOG_VERBOSITY", Variable.verbosity)]

/-- Whether two keys are the same; NaN is the same key as itself. -/
def sameKey (a b : Value) : Bool := a.isNan && b.isNan || a == b

def define (r : Registry) (name : Text) (x : Variable) : Except Fault Registry := do
  let _ ← keyText? x.key
  if r.any fun entry => sameKey entry.2.key x.key then throw (.settingDefinedTwice x.key)
  return (name, x) :: r

/-- The variable that was last defined under a name. -/
def find (r : Registry) (name : Text) : Except Fault Variable :=
  match r.lookup name with
  | some x => .ok x
  | none => .error .memberMissing

/-- The key of a variable, which must be a text to have a place among the others. -/
def sortKey (x : Variable) : Except Fault Text :=
  match x.key with
  | .text t => .ok t
  | _ => .error .wrongKind

/-- All keys in ascending order. -/
def keys (r : Registry) : Except Fault (List Text) := do
  let keys ← r.mapM fun entry => sortKey entry.2
  return keys.mergeSort fun a b => !decide (b < a)

end Registry

end PartialTx.Settings
