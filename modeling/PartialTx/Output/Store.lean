import PartialTx.Field
import PartialTx.Output.Basic

/-! Storing one field in a record. A field that is refused leaves the record as it is:
the fault comes instead of a new record. -/

namespace PartialTx.Output

variable {σ : Type} [Script σ]

/-- A field that occurs once and has no key. -/
def checkSingle {α : Type} (type : FieldType) (old : Option α) (hasKey : Bool) :
    Except Fault Unit :=
  if old.isSome then .error (.duplicateField type)
  else if hasKey then .error (.keyNotEmpty type)
  else .ok ()

def store (r : Output σ) (f : Field) : Except Fault (Output σ) :=
  let single {α : Type} (type : FieldType) (old : Option α) : Except Fault Unit :=
    checkSingle type old !f.key.isEmpty
  match FieldType.ofCode? f.code with
  | none => .error (.unknownType f.code.toNat)
  | some .redeemScript => do
    single .redeemScript r.redeemScript
    return { r with redeemScript := some (Script.ofBytes f.value) }
  | some .witnessScript => do
    single .witnessScript r.witnessScript
    return { r with witnessScript := some (Script.ofBytes f.value) }
  | some .keyOrigin =>
    if Key.isCompressed f.key then do r.addKeyOrigin (← KeyOrigin.ofField f.key f.value)
    else .error (.keyMalformed .keyOrigin f.key.length)
  | some .tapInternalKey => do
    single .tapInternalKey r.tapInternalKey
    if Key.isXOnly f.value then return { r with tapInternalKey := some f.value }
    else throw (.valueNotXOnlyKey .tapInternalKey f.value.length)
  | some .tapTree => do
    single .tapTree r.tapTree
    return { r with tapTree := some (Script.ofBytes f.value) }
  | some .tapKeyOrigin =>
    if Key.isXOnly f.key then do r.addTapOrigin (← TapOrigin.ofField f.key f.value)
    else .error (.keyMalformed .tapKeyOrigin f.key.length)

/-! ### Unchecked fields -/

/-- The type that an unchecked code stands for; a whole number of any kind will do. -/
def typeOfValue (code : Value) : Except Fault FieldType :=
  let ofInt (n : Int) : Option FieldType := FieldType.all.find? fun t => t.code.toNat == n
  match code with
  | .float x =>
    match (x.whole?).bind ofInt with
    | some type => .ok type
    | none => .error .codeInvalid
  | .text _ => .error .codeInvalid
  | v =>
    match v.int? with
    | none => .error .wrongKind
    | some n =>
      match ofInt n with
      | some type => .ok type
      | none => .error (.unknownType n)

/-- The length that is told of a key of the wrong form; an empty key of any kind has none. -/
def lengthOfKey (key : Value) : Except Fault Nat := if key.truth then key.length else .ok 0

/-- Stores a field with parts of unchecked kinds; `scriptOf` says which script or tree a value
stands for. -/
def storeValuesWith {σ : Type} (scriptOf : Value → Except Fault (Option σ)) (r : Output σ)
    (code key value : Value) : Except Fault (Output σ) := do
  let type ← typeOfValue code
  let single {α : Type} (old : Option α) : Except Fault Unit := checkSingle type old key.truth
  match type with
  | .redeemScript =>
    single r.redeemScript
    return { r with redeemScript := ← scriptOf value }
  | .witnessScript =>
    single r.witnessScript
    return { r with witnessScript := ← scriptOf value }
  | .keyOrigin =>
    if Key.hasForm Key.isCompressed key then
      r.addKeyOrigin (← KeyOrigin.ofFieldValues key value)
    else throw (.keyMalformed type (← lengthOfKey key))
  | .tapInternalKey =>
    single r.tapInternalKey
    if Key.hasForm Key.isXOnly value then return { r with tapInternalKey := value.bytes? }
    else throw (.valueNotXOnlyKey type (← value.length))
  | .tapTree =>
    single r.tapTree
    return { r with tapTree := ← scriptOf value }
  | .tapKeyOrigin =>
    if Key.hasForm Key.isXOnly key then
      r.addTapOrigin (← TapOrigin.ofFieldValues key value)
    else throw (.keyMalformed type (← lengthOfKey key))

/-- Stores a field in a record that a caller fills. -/
def storeValues (r : Output Value) (code key value : Value) : Except Fault (Output Value) :=
  r.storeValuesWith Script.given code key value

theorem typeOfValue_code (code : UInt8) :
    typeOfValue (.int code.toNat) =
      match FieldType.ofCode? code with
      | some type => .ok type
      | none => .error (.unknownType code.toNat) := by
  have h : FieldType.all.find? (fun t => (t.code.toNat : Int) == code.toNat) =
      FieldType.ofCode? code := by
    unfold FieldType.ofCode?
    congr 1
    funext t
    rw [Bool.eq_iff_iff, beq_iff_eq, beq_iff_eq, Int.ofNat_inj, UInt8.toNat_inj]
  simp only [typeOfValue, Value.int?, h]

theorem lengthOfKey_bytes (key : Bytes) : lengthOfKey (.bytes key) = .ok key.length := by
  cases key <;> rfl

/-- A field of byte strings is stored alike, whether or not its kinds are known. -/
theorem storeValuesWith_bytes {scriptOf : Value → Except Fault (Option σ)}
    (hscript : Script.KeepsBytes scriptOf) (r : Output σ) (f : Field) :
    r.storeValuesWith scriptOf (.int f.code.toNat) (.bytes f.key) (.bytes f.value) = r.store f := by
  unfold storeValuesWith store
  rw [typeOfValue_code]
  rcases FieldType.ofCode? f.code with _ | type
  · rfl
  · cases type with
    | keyOrigin | tapKeyOrigin =>
      simp only [Key.hasForm, Value.bytes?, Option.any_some, lengthOfKey_bytes,
        KeyOrigin.ofFieldValues_bytes, TapOrigin.ofFieldValues_bytes]
      rfl
    | redeemScript | witnessScript | tapTree =>
      simp only [hscript f.value]
      rfl
    | tapInternalKey => rfl

end PartialTx.Output
