import PartialTx.Log.Loggers
import PartialTx.Text.Split

/-! Verbosity: filters between commas, each of which sets the level of one logger. They
take effect from left to right, up to the first that is invalid. -/

namespace PartialTx.Log

/-- A filter sets a logger, given by its full name, to a level, given by name. -/
structure Filter where
  logger : Text
  levelName : Text
  deriving DecidableEq

/-- A level alone is for the package; with an equals sign it is for a logger below it. -/
def Filter.ofText (t : Text) : Except Fault Filter :=
  match Text.split '=' t with
  | [levelName] => .ok { logger := packageName, levelName }
  | [name, levelName] => .ok { logger := fullName name, levelName }
  | _ => .error (.filterInvalid t)

/-- Sets the level of a logger by name. The logger is there from then on, even if there is no
such level. -/
def Filter.apply (f : Filter) (ls : Loggers) : Except Fault Unit × Loggers :=
  let ls := ls.make f.logger
  match level? f.levelName with
  | some level => (.ok (), ls.set f.logger level)
  | none => (.error .levelNameUnknown, ls)

/-- Applies filters in order; those in front of an invalid one stay in effect. -/
def applyAll : List Text → Loggers → Except Fault Unit × Loggers
  | [], ls => (.ok (), ls)
  | t :: rest, ls =>
    match Filter.ofText t with
    | .error fault => (.error fault, ls)
    | .ok f =>
      match f.apply ls with
      | (.ok (), ls) => applyAll rest ls
      | failed => failed

/-- The filters in a text; what is empty between commas is none. -/
def filtersOf (verbosity : Text) : List Text := (Text.split ',' verbosity).filter (!·.isEmpty)

/-- The text that leaves all levels alone. -/
def allFilters : Text := "*"

def applyText (verbosity : Text) (ls : Loggers) : Except Fault Unit × Loggers :=
  if verbosity = allFilters then (.ok (), ls) else applyAll (filtersOf verbosity) ls

/-- Applies verbosity of unchecked kind: what is empty changes nothing, and of the rest only
texts can be split. -/
def applyValue (verbosity : Value) (ls : Loggers) : Except Fault Unit × Loggers :=
  if !verbosity.truth then (.ok (), ls)
  else
    match verbosity with
    | .text t => applyText t ls
    | .bytes _ | .buffer _ => (.error .wrongKind, ls)
    | _ => (.error .memberMissing, ls)

end PartialTx.Log
