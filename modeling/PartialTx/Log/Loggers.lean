import PartialTx.Log.Level

/-! Loggers by dotted name. A logger without a level of its own takes that of its
parent, the logger with the nearest dotted head of its name; above all of them is
the root. Which messages a logger lets through is decided once for each level, and
decided anew after a level has been set. -/

namespace PartialTx.Log

/-- Loggers below the root with their own levels, where zero stands for none, and the decisions
that stand: by level and logger, whether a message goes through. -/
structure Loggers where
  levels : List (Text × Nat)
  decisions : List ((Int × Text) × Bool) := []

/-- The level of the root. -/
def rootLevel : Nat := warning

def rootName : Text := "root"

/-- Whether a full name stands for the root; the empty one does, too. -/
def isRoot (name : Text) : Bool := name.isEmpty || name == rootName

/-! ### Names -/

/-- The heads of a dotted name that is held backwards, the longest first. The search for the
next dot leaves out the character in front of the last one. -/
def headsOf (name : Text) : List Text :=
  match _h : name.dropWhile (·.toChar != '.') with
  | _ :: c :: head => (c :: head) :: headsOf head
  | _ => []
termination_by name.length
decreasing_by
  have := (List.dropWhile_sublist (l := name) (·.toChar != '.')).length_le
  simp only [_h, List.length_cons] at this
  omega

theorem length_lt_of_mem_headsOf {name head : Text} (h : head ∈ headsOf name) :
    head.length < name.length := by
  fun_induction headsOf name with
  | case1 name d c rest heq ih =>
    have hl := (List.dropWhile_sublist (l := name) (·.toChar != '.')).length_le
    simp only [heq, List.length_cons] at hl
    rcases List.mem_cons.1 h with rfl | h
    · simp only [List.length_cons]
      omega
    · have := ih h
      omega
  | case2 => simp at h

/-- The dotted heads of a name, the longest first. -/
def heads (name : Text) : List Text := (headsOf name.reverse).map List.reverse

theorem length_lt_of_mem_heads {name head : Text} (h : head ∈ heads name) :
    head.length < name.length := by
  obtain ⟨backwards, hb, rfl⟩ := List.mem_map.1 h
  have := length_lt_of_mem_headsOf hb
  simpa using this

/-- The logger above all loggers of the codec. -/
def packageName : Text := "pstcodec"

/-- The full name of a logger that is asked for by a name below the package; one mention of
the package in front of it is left out. -/
def fullName (name : Text) : Text :=
  let lead := packageName ++ "."
  lead ++ if lead.isPrefixOf name then name.drop lead.length else name

namespace Loggers

/-! ### Levels -/

/-- The loggers that are there from the start. -/
def initial : Loggers where
  levels := [(packageName, debug), (fullName "logging", info), (fullName "output", 0)]

/-- Whether a logger is there; the root always is. -/
def has (ls : Loggers) (name : Text) : Bool := isRoot name || ls.levels.any fun l => l.1 == name

/-- The level that a logger has of its own. -/
def ownLevel (ls : Loggers) (name : Text) : Nat :=
  if isRoot name then rootLevel else (ls.levels.lookup name).getD 0

/-- Makes a logger if it is not there. The decisions stand, also those of loggers whose parent
it becomes. -/
def make (ls : Loggers) (name : Text) : Loggers :=
  if ls.has name then ls else { ls with levels := ls.levels ++ [(name, 0)] }

/-- Sets the level of a logger that is there. No decision outlives it. -/
def set (ls : Loggers) (name : Text) (level : Nat) : Loggers where
  levels := ls.levels.map fun l => if l.1 == name then (name, level) else l
  decisions := []

/-- The parent of a logger, unless it is the root. -/
def parent? (ls : Loggers) (name : Text) : Option Text := (heads name).find? ls.has

/-- The level in force for a logger. -/
def effectiveLevel (ls : Loggers) (name : Text) : Nat :=
  if ls.ownLevel name ≠ 0 then ls.ownLevel name
  else
    match _h : ls.parent? name with
    | some parent => ls.effectiveLevel parent
    | none => rootLevel
termination_by name.length
decreasing_by exact length_lt_of_mem_heads (List.mem_of_find?_eq_some _h)

/-! ### Decisions -/

/-- Whether the level in force for a logger lets a message through; one of no level never
passes. -/
def passes (ls : Loggers) (name : Text) (level : Int) : Bool :=
  0 < level && (ls.effectiveLevel name : Int) ≤ level

/-- The decision on a message: the one that stands, or a new one that stands from then on. -/
def decision (ls : Loggers) (name : Text) (level : Int) : Bool × Loggers :=
  match ls.decisions.lookup (level, name) with
  | some goes => (goes, ls)
  | none =>
    let goes := ls.passes name level
    (goes, { ls with decisions := ((level, name), goes) :: ls.decisions })

end Loggers

end PartialTx.Log
