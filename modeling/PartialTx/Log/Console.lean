import PartialTx.Log.Filter
import PartialTx.Settings.Variable
import PartialTx.Text.Lines
import PartialTx.Version

/-! The log as a whole: the loggers, one console handler that prints messages from a
level on, and what has been printed. As long as there is no handler, warnings and
graver messages are printed as they are. -/

namespace PartialTx

/-- `console` is the level of the handler, if there is one; `lines` are what has been printed,
the latest first. -/
structure Log where
  loggers : Log.Loggers := Log.Loggers.initial
  console : Option Nat := none
  lines : List Text := []

namespace Log

/-! ### Messages -/

/-- The logger of a name, made if need be. -/
def logger (log : Log) (name : Text) : Text × Log :=
  (fullName name, { log with loggers := log.loggers.make (fullName name) })

/-- The text of a message: the first letter of its level, the logger and the message. -/
def messageText (name : Text) (level : Int) (message : Text) : Text :=
  let letter := String.ofList ((levelName level).toList.take 1)
  letter ++ " | " ++ name ++ " | " ++ message

/-- What is printed of a message that its logger has let through. -/
def shown? (log : Log) (name : Text) (level : Int) (message : Text) : Option Text :=
  match log.console with
  | some least => if (least : Int) ≤ level then some (messageText name level message) else none
  | none => if (warning : Int) ≤ level then some message else none

/-- Prints a text and ends its last line. -/
def print (log : Log) (text : Text) : Log :=
  { log with lines := (Text.lines (text ++ "\n")).reverse ++ log.lines }

/-- Sends a message to a logger. -/
def emit (log : Log) (name : Text) (level : Int) (message : Text) : Log :=
  let (goes, loggers) := log.loggers.decision name level
  let log := { log with loggers }
  if goes then
    match log.shown? name level message with
    | some text => log.print text
    | none => log
  else log

/-! ### Unchecked arguments -/

/-- The logger of a name of unchecked kind; only a text can have the package in front. -/
def loggerOfValue (log : Log) (name : Value) : Except Fault Text × Log :=
  match name with
  | .text name => let (name, log) := log.logger name; (.ok name, log)
  | .bytes _ | .buffer _ => (.error .wrongKind, log)
  | _ => (.error .memberMissing, log)

/-- Sends a message of unchecked kind. The logger is there from then on, even if the level is
not a whole number. A message that goes through needs a level with a name, and is not printed
if it has no text. -/
def emitValues (log : Log) (name level message : Value) : Except Fault Unit × Log :=
  match log.loggerOfValue name with
  | (.error fault, log) => (.error fault, log)
  | (.ok name, log) =>
    match level.int? with
    | some level =>
      let (goes, loggers) := log.loggers.decision name level
      if goes && !Text.hasNumeral level then (.error .numberTooLong, { log with loggers })
      else
        match message.display? with
        | some text => (.ok (), log.emit name level text)
        | none => (.ok (), { log with loggers })
    | none => (.error .wrongKind, log)

/-! ### The handler -/

/-- Applies verbosity to the levels of the loggers. -/
def applyVerbosity (log : Log) (verbosity : Value) : Except Fault Unit × Log :=
  let (outcome, loggers) := applyValue verbosity log.loggers
  (outcome, { log with loggers })

/-- Installs the console handler, if there is none, and then applies verbosity. Without
verbosity the console shows warnings only. -/
def install (log : Log) (verbosity : Value) : Except Fault Unit × Log :=
  let least := if verbosity.truth then debug else warning
  { log with console := some least }.applyVerbosity verbosity

/-- Installs the handler as settings say, then tells the version and the host, and which
verbosity is in force. -/
def configure (host : String) (s : Settings) (log : Log) : Except Fault Unit × Log :=
  match Settings.Variable.verbosity.read s with
  | .error fault => (.error fault, log)
  | .ok verbosity =>
    match log.install verbosity with
    | (.error fault, log) => (.error fault, log)
    | (.ok (), log) =>
      let own := fullName "logging"
      let log := log.emit own info ("pstcodec version: " ++ version ++ ", " ++ host : String)
      match verbosity.shown with
      | .error fault => (.error fault, log)
      | .ok shown => (.ok (), log.emit own info ("log filters: verbosity " ++ shown : String))

/-- The logger of the lines that reading a map leaves. -/
def outputLogger : Text := fullName "output"

/-- Sends the lines of a reading to their logger. -/
def emitLines (log : Log) (lines : List String) : Log :=
  lines.foldl (fun log (line : String) => log.emit outputLogger debug line) log

end Log

end PartialTx
