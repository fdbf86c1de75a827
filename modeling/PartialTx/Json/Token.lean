import PartialTx.Binary64.Literal
import PartialTx.Value.Basic

/-! The tokens of JSON text: marks, and values that hold no others. Numbers without
fraction and exponent are whole, and NaN and the infinities have names. Each reader
takes what it reads off the front of a text. -/

namespace PartialTx.Json

inductive Token
  | openList
  | closeList
  | openObject
  | closeObject
  | colon
  | comma
  | scalar (v : Value)

/-- What is left behind a token that starts in front of `cs`. -/
abbrev Rest (cs : List Char) := { rest : List Char // rest.length ≤ cs.length }

/-! ### Texts -/

/-- The number that four hexadecimal digits denote. -/
def unit? (a b c d : Char) : Option Nat := do
  let digit (x : Char) : Option Nat := (Bytes.hexValue? x).map UInt8.toNat
  return 4096 * (← digit a) + 256 * (← digit b) + 16 * (← digit c) + (← digit d)

/-- The character that a backslash and a letter stand for. -/
def escaped? : Char → Option Char
  | '\x22' => some Text.doubleQuote
  | '\x5c' => some Text.backslash
  | '/' => some '/'
  | 'b' => some '\x08'
  | 'f' => some '\x0c'
  | 'n' => some '\n'
  | 'r' => some '\r'
  | 't' => some '\t'
  | _ => none

/-- A text held backwards with one more code point; the second half of a surrogate pair
makes one character with the first. -/
def push (t : Text) (p : CodePoint) : Text :=
  match t with
  | [] => [p]
  | q :: rest =>
    if 0xd800 ≤ q.toNat ∧ q.toNat < 0xdc00 ∧ 0xdc00 ≤ p.toNat ∧ p.toNat < 0xe000 then
      .ofNat (0x10000 + (q.toNat - 0xd800) * 0x400 + (p.toNat - 0xdc00)) :: rest
    else p :: q :: rest

/-- The text up to the closing quote, and what is left behind that; `done` is what has been
read of it, held backwards. -/
def textOnto (done : Text) : (cs : List Char) → Option (Text × List Char)
  | [] => none
  | '\x22' :: rest => some (done.reverse, rest)
  | '\x5c' :: 'u' :: a :: b :: c :: d :: rest =>
    match unit? a b c d with
    | none => none
    | some n => textOnto (push done (.ofNat n)) rest
  | '\x5c' :: c :: rest =>
    match escaped? c with
    | none => none
    | some c => textOnto (push done c) rest
  | c :: rest => if c < ' ' then none else textOnto (push done c) rest

theorem length_le_of_textOnto {done t : Text} {cs rest : List Char}
    (h : textOnto done cs = some (t, rest)) : rest.length ≤ cs.length := by
  fun_induction textOnto done cs with
  | case1 | case3 | case5 | case7 => simp at h
  | case2 =>
    obtain ⟨-, rfl⟩ : _ ∧ _ = rest := by simpa using h
    simp
  | case4 | case6 | case8 =>
    rename_i ih
    have := ih h
    simp only [List.length_cons]
    omega

/-- The text that starts behind an opening quote. -/
def text? (cs : List Char) : Option (Text × Rest cs) :=
  match h : textOnto [] cs with
  | none => none
  | some (t, rest) => some (t, ⟨rest, length_le_of_textOnto h⟩)

/-! ### Numbers -/

/-- Digits in front of a text. -/
def digits (cs : List Char) : List Char × Rest cs :=
  (cs.takeWhile Text.isDigit, ⟨cs.dropWhile Text.isDigit, (List.dropWhile_sublist _).length_le⟩)

/-- The digits after a point, if a digit follows it. -/
def fraction? (cs : List Char) : Option (List Char × Rest cs) :=
  match cs with
  | '.' :: tail =>
    let (found, ⟨rest, h⟩) := digits tail
    if found.isEmpty then none
    else some (found, ⟨rest, Nat.le_succ_of_le h⟩)
  | _ => none

/-- The exponent after its letter, if a digit follows. -/
def exponent? (cs : List Char) : Option (Int × Rest cs) :=
  let signed (negative : Bool) (tail : List Char) : Option (Int × Rest tail) :=
    let (found, rest) := digits tail
    if found.isEmpty then none else some (Binary64.exponentOf negative found, rest)
  let wider (c : Char) {tail : List Char} (r : Int × Rest tail) : Int × Rest (c :: tail) :=
    (r.1, ⟨r.2.1, Nat.le_succ_of_le r.2.2⟩)
  match cs with
  | e :: tail =>
    if e == 'e' || e == 'E' then
      match tail with
      | '+' :: tail => (signed false tail).map fun r => wider e (wider '+' r)
      | '-' :: tail => (signed true tail).map fun r => wider e (wider '-' r)
      | tail => (signed false tail).map (wider e)
    else none
  | [] => none

/-- The whole part of a number that starts with a character: a zero alone, or digits that do
not start with one. -/
def whole? (c : Char) (cs : List Char) : Option (List Char × Rest cs) :=
  if c == '0' then some ([c], ⟨cs, Nat.le_refl _⟩)
  else if Text.isDigit c then
    let (more, rest) := digits cs
    some (c :: more, rest)
  else none

/-- The number that starts with a character, its sign aside. A whole number has at most
`maxDigits` digits. -/
def number? (maxDigits : Nat) (negative : Bool) (c : Char) (cs : List Char) :
    Option (Value × Rest cs) := do
  let (whole, ⟨rest, h⟩) ← whole? c cs
  match fraction? rest, exponent? rest with
  | none, none =>
    if maxDigits < whole.length then none
    else
      let n : Int := Text.decimal whole
      some (.int (if negative then -n else n), ⟨rest, h⟩)
  | none, some (e, ⟨r, hr⟩) =>
    some (.float (Binary64.ofParts negative whole [] e), ⟨r, Nat.le_trans hr h⟩)
  | some (fraction, ⟨r, hr⟩), _ =>
    match exponent? r with
    | none => some (.float (Binary64.ofParts negative whole fraction 0), ⟨r, Nat.le_trans hr h⟩)
    | some (e, ⟨q, hq⟩) =>
      some (.float (Binary64.ofParts negative whole fraction e),
        ⟨q, Nat.le_trans hq (Nat.le_trans hr h)⟩)

/-! ### Tokens -/

/-- The values that have names. -/
def names : List (String × Value) :=
  [("null", .null), ("true", .bool true), ("false", .bool false), ("NaN", .float .nan),
    ("Infinity", .float (.infinite false)), ("-Infinity", .float (.infinite true))]

/-- A name in front of a text. -/
def name? (cs : List Char) : Option (Value × Nat) :=
  (names.find? fun n => n.1.toList.isPrefixOf cs).map fun n => (n.2, n.1.length)

def mark? : Char → Option Token
  | '[' => some .openList
  | ']' => some .closeList
  | '\x7b' => some .openObject
  | '\x7d' => some .closeObject
  | ':' => some .colon
  | ',' => some .comma
  | _ => none

/-- Space, tab, line feed and carriage return. -/
def isGap (c : Char) : Bool := c == ' ' || c == '\t' || c == '\n' || c == '\r'

/-- The token that starts with a character. -/
def token? (maxDigits : Nat) (c : Char) (cs : List Char) : Option (Token × Rest cs) :=
  match mark? c with
  | some mark => some (mark, ⟨cs, Nat.le_refl _⟩)
  | none =>
    if c == Text.doubleQuote then
      (text? cs).map fun (t, rest) => (.scalar (.text t), rest)
    else
      match name? (c :: cs) with
      | some (v, length) => some (.scalar v, ⟨cs.drop (length - 1), by simp⟩)
      | none =>
        match c, cs with
        | '-', d :: tail =>
          (number? maxDigits true d tail).map fun (v, rest) =>
            (.scalar v, ⟨rest.1, Nat.le_succ_of_le rest.2⟩)
        | c, cs => (number? maxDigits false c cs).map fun (v, rest) => (.scalar v, rest)

/-- The tokens of a text, up to its end; `done` holds those already read, last first. -/
def tokensOnto (maxDigits : Nat) (done : List Token) (cs : List Char) : Option (List Token) :=
  match cs with
  | [] => some done.reverse
  | c :: cs =>
    if isGap c then tokensOnto maxDigits done cs
    else
      match token? maxDigits c cs with
      | some (t, ⟨rest, _⟩) => tokensOnto maxDigits (t :: done) rest
      | none => none
termination_by cs.length

def tokens? (maxDigits : Nat) (cs : List Char) : Option (List Token) := tokensOnto maxDigits [] cs

end PartialTx.Json
