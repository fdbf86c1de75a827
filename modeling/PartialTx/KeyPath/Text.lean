import PartialTx.KeyPath.Basic
import PartialTx.Text.Split
import PartialTx.Value.Convert

/-! Key paths as text, such as `m/84'/0/5`: levels between slashes, a hardened one
followed by an apostrophe or an `h`. The leading `m` may be missing, and empty levels
count for nothing. -/

namespace PartialTx.KeyPath

/-! ### Reading -/

/-- Whether a level ends in a hardened mark. -/
def isMarked (level : Text) : Bool :=
  level.getLast?.any fun p => p.toChar == Text.apostrophe || p.toChar == 'h'

/-- The child index that a level denotes. -/
def ofLevel (level : Text) : Except Fault UInt32 :=
  let digits := Text.chars (if isMarked level then level.dropLast else level)
  if digits.isEmpty || !digits.all Text.isDigit then .error (.levelInvalid level)
  else if Text.maxDigits < digits.length then .error .levelTooLong
  else
    let n := Text.decimal digits
    if ChildIndex.hardened ≤ n then .error (.levelTooGreat level)
    else .ok (UInt32.ofNat (if isMarked level then n + ChildIndex.hardened else n))

/-- The levels of a text: what stands between slashes, without a leading `m`. -/
def levels (t : Text) : List Text :=
  match (Text.split '/' t).filter (!·.isEmpty) with
  | [] => []
  | first :: rest => if first = "m" then rest else first :: rest

def ofText (t : Text) : Except Fault (List UInt32) := (levels t).mapM ofLevel

/-! ### Writing -/

def numberText (n : Nat) : Text := Text.ofString (toString n)

def levelText (mark : Text) : ChildIndex → Text
  | .flag b => Value.boolText b
  | .index n =>
    if ChildIndex.hardened ≤ n.toNat then numberText (n.toNat - ChildIndex.hardened) ++ mark
    else numberText n.toNat

/-- A path as text, with a given text for the hardened mark. -/
def toText (mark : Text) (p : KeyPath) : Text :=
  List.intercalate "/" ("m" :: p.map (levelText mark))

/-- The usual mark of a hardened level. -/
def usualMark : Text := [↑Text.apostrophe]

/-! ### Unchecked paths -/

def checkLevel (v : Value) : Except Fault ChildIndex :=
  match ChildIndex.ofValue? v with
  | some i => .ok i
  | none =>
    match v.int? with
    | some n => .error (.levelOutOfRange n)
    | none => .error (.levelNotNumber v)

/-- The text of a level that may be anything. The mark is shown as text, where it is needed. -/
def levelTextOfValue (mark v : Value) : Except Fault Text := do
  let i ← checkLevel v
  match mark.display? with
  | some mark => return levelText mark i
  | none => if i.isHardened then throw .numberTooLong else return levelText [] i

def textOfValue (mark path : Value) : Except Fault Text := do
  let levels ← (← path.elements).mapM (levelTextOfValue mark)
  return List.intercalate "/" ("m" :: levels)

/-- Reads a path that must be a text. A byte string can be split, but not at a character;
all else cannot be split. -/
def ofTextValue (path : Value) : Except Fault (List UInt32) :=
  match path with
  | .text t => ofText t
  | .bytes _ | .buffer _ => .error .wrongKind
  | _ => .error .memberMissing

/-- The steps of a path given as text or as a sequence, not checked yet. -/
def stepsOfValue (path : Value) : Except Fault (List Value) :=
  match path with
  | .text t => (ofText t).map fun ns => (ofNumbers ns).map ChildIndex.toValue
  | v => v.elements

def checkStep (v : Value) : Except Fault ChildIndex :=
  match ChildIndex.ofValue? v with
  | some i => .ok i
  | none => .error (.childOutOfRange v)

end PartialTx.KeyPath
