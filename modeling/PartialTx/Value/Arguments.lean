import PartialTx.Fault

/-! Named arguments. A name that is not known and a name without a value are faults,
found before any argument is looked at. -/

namespace PartialTx

/-- Arguments by name; a name occurs once. -/
abbrev Arguments := List (Text × Value)

namespace Arguments

/-- Refuses names other than the given ones. -/
def known (names : List Text) (args : Arguments) : Except Fault Unit :=
  if args.all fun a => names.contains a.1 then .ok () else .error .argumentMismatch

/-- An argument that must be given. -/
def required (args : Arguments) (name : Text) : Except Fault Value :=
  match args.lookup name with
  | some v => .ok v
  | none => .error .argumentMismatch

/-- An argument that may be left out. -/
def optional (args : Arguments) (name : Text) (otherwise : Value) : Value :=
  (args.lookup name).getD otherwise

end Arguments

end PartialTx
