import PartialTx.Stream

/-! Compact sizes: a byte below 0xfd stands for itself; 0xfd, 0xfe and 0xff announce a
word of two, four or eight bytes, which must hold a value that no shorter form can. -/

namespace PartialTx.CompactSize

/-- The width of the word that a marker announces, and the least value it may hold. -/
def payload? (marker : UInt8) : Option (Nat × Nat) :=
  if marker = 0xfd then some (2, 0xfd)
  else if marker = 0xfe then some (4, 0x10000)
  else if marker = 0xff then some (8, 0x100000000)
  else none

/-- The shortest form of a size below `Bytes.wordCount 8`. -/
def encode (n : Nat) : Bytes :=
  if n < 0xfd then Bytes.ofWord 1 n
  else if n ≤ 0xffff then 0xfd :: Bytes.ofWord 2 n
  else if n ≤ 0xffffffff then 0xfe :: Bytes.ofWord 4 n
  else 0xff :: Bytes.ofWord 8 n

/-- The form of any whole number that has one. -/
def encode? (n : Int) : Except Fault Bytes :=
  if n < 0 then .error (.numberNegative (.int n))
  else if Bytes.wordCount 8 ≤ n then .error .numberTooGreat
  else .ok (encode n.toNat)

/-- The form of an unchecked value. A floating-point number passes the test of its sign
and then fails, as it has no bytes. -/
def ofValue (v : Value) : Except Fault Bytes :=
  match v with
  | .float x =>
    if x = .nan ∨ x.isNegative then .error (.numberNegative v) else .error .wrongKind
  | .bool b => encode? b.toNat
  | .int n => encode? n
  | _ => .error .wrongKind

/-- Reads a size; there is none if the stream has ended. -/
def read : StreamM (Option Nat) := do
  match ← Stream.read 1 with
  | [] => return none
  | marker :: _ =>
    match payload? marker with
    | none => return some marker.toNat
    | some (width, least) =>
      let size := Bytes.toWord (← Stream.readExactly width)
      if size < least then throw (.longForm marker size) else return some size

theorem forward_read : Stream.Forward read := by
  refine .bind (.read 1) fun got => ?_
  split
  · exact .pure none
  · split
    · exact .pure _
    · refine .bind (.readExactly _) fun word => ?_
      dsimp only
      split
      · exact .throw _
      · exact .pure _

end PartialTx.CompactSize
