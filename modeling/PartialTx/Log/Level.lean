import PartialTx.Fault

/-! Levels of log messages, and their names. Names are read in any case. -/

namespace PartialTx.Log

def debug : Nat := 10
def info : Nat := 20
def warning : Nat := 30
def error : Nat := 40
def critical : Nat := 50

/-- Some levels have two names, of which the first is written. -/
def levelNames : List (String × Nat) :=
  [("CRITICAL", critical), ("FATAL", critical), ("ERROR", error), ("WARNING", warning),
    ("WARN", warning), ("INFO", info), ("DEBUG", debug), ("NOTSET", 0)]

/-- The upper-case letter of a level name that a character stands for: besides a to z, the
dotless i and the long s have one. -/
def upper (c : Char) : Char :=
  if c == '\u0131' then 'I' else if c == '\u017f' then 'S' else c.toUpper

/-- The level that a name stands for. -/
def level? (name : Text) : Option Nat :=
  levelNames.lookup (String.ofList (name.chars.map upper))

/-- The name that is written for a level. -/
def levelName (level : Int) : String :=
  match levelNames.find? fun entry => (entry.2 : Int) == level with
  | some entry => entry.1
  | none => "Level " ++ toString level

end PartialTx.Log
