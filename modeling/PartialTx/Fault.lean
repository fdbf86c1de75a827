import PartialTx.FieldType

/-! Why an operation is refused: one constructor a cause, a kind for each, and the
text of those that have one. Telling a value may fail, as a whole number with too many
digits has no text; a fault that cannot tell its value is of another kind then. -/

namespace PartialTx

/-- The causes found while a map is read come first, then those of key paths and key origins,
of single values, of streams, of settings and of log filters. -/
inductive Fault
  | mapUnterminated
  | keyLengthMissing (code : UInt8)
  | valueLengthMissing
  | shortRead (expected received : Nat)
  | keyTooLong (length : Nat) (limit : Value)
  | valueTooLong (length : Nat) (limit : Value)
  | longForm (marker : UInt8) (size : Nat)
  | unknownType (code : Int)
  | codeInvalid
  | trailingBytes (count : Nat)
  | duplicateField (type : FieldType)
  | duplicateKey (type : FieldType) (key : Bytes)
  | keyNotEmpty (type : FieldType)
  | keyMalformed (type : FieldType) (length : Nat)
  | valueNotXOnlyKey (type : FieldType) (length : Nat)
  | originLength (packed : Bytes)
  | tapOriginTooShort (length : Nat)
  | tapOriginTooShortFor (leafHashes length : Nat)
  | leafCountUnreadable (cause : Fault)
  | levelInvalid (level : Text)
  | levelTooGreat (level : Text)
  | levelTooLong
  | levelNotNumber (level : Value)
  | levelOutOfRange (level : Int)
  | childOutOfRange (child : Value)
  | fingerprintLength (length : Nat)
  | packedFingerprintLength (fingerprint : Bytes)
  | leafHashLength (length : Nat)
  | keyNotCompressed (key : Bytes)
  | keyNotXOnly (key : Bytes)
  | internalKeyInvalid (shown : String)
  | notMapText
  | hexInvalid
  | numeralInvalid
  | byteOutOfRange
  | countNegative
  | numberTooGreat
  | memoryExhausted
  | numberTooLong
  | numberNegative (number : Value)
  | typeOutOfRange (type : Value)
  | wrongKind
  | memberMissing
  | argumentMismatch
  | streamClosed
  | positionNegative
  | writeRefused
  | unimplemented
  | pairLength
  | optionKeyNotText (key : Value)
  | settingDefinedTwice (key : Value)
  | settingUnreadable (key value : Value) (kind : String)
  | settingsFileBroken (path : Text)
  | settingsFileNotObject (path : Text)
  | filterInvalid (filter : Text)
  | levelNameUnknown

namespace Fault

inductive Kind
  | unexpectedEnd
  | oversized
  | duplicate
  | invalidKey
  | malformedValue
  | invalidFormat
  | badValue
  | badKind
  | assertion
  | missingMember
  | overflow
  | unimplemented
  | storage
  | memory
  deriving DecidableEq, Repr

/-- The names of the kinds that only reading a map gives rise to. -/
def Kind.codecName? : Kind → Option String
  | unexpectedEnd => some "UnexpectedEndOfStream"
  | oversized => some "OversizedValue"
  | duplicate => some "DuplicateKey"
  | invalidKey => some "InvalidKeyData"
  | malformedValue => some "MalformedValue"
  | invalidFormat => some "InvalidPSTFormat"
  | _ => none

/-- The kind of a fault that tells a value: that of its cause, if the value can be told. -/
def Kind.ifTold (k : Kind) (v : Value) : Kind := if v.quoted?.isSome then k else .badValue

def kind : Fault → Kind
  | mapUnterminated | keyLengthMissing _ | valueLengthMissing | shortRead _ _ => .unexpectedEnd
  | keyTooLong _ limit | valueTooLong _ limit => Kind.oversized.ifTold limit
  | longForm _ _ | unknownType _ | trailingBytes _ => .invalidFormat
  | duplicateField _ | duplicateKey _ _ => .duplicate
  | keyNotEmpty _ | keyMalformed _ _ | valueNotXOnlyKey _ _ => .invalidKey
  | originLength _ | tapOriginTooShort _ | tapOriginTooShortFor _ _
  | leafCountUnreadable _ => .malformedValue
  | levelNotNumber level => Kind.badKind.ifTold level
  | wrongKind | argumentMismatch => .badKind
  | numberTooGreat => .overflow
  | memoryExhausted => .memory
  | optionKeyNotText key | settingDefinedTwice key => Kind.assertion.ifTold key
  | numberNegative _ | typeOutOfRange _ => .assertion
  | memberMissing => .missingMember
  | writeRefused => .storage
  | unimplemented => .unimplemented
  | levelInvalid _ | levelTooGreat _ | levelTooLong | levelOutOfRange _ | childOutOfRange _
  | fingerprintLength _ | packedFingerprintLength _ | leafHashLength _ | keyNotCompressed _
  | keyNotXOnly _ | internalKeyInvalid _ | notMapText | hexInvalid | numeralInvalid
  | byteOutOfRange | countNegative | numberTooLong | codeInvalid
  | streamClosed | positionNegative | pairLength | settingUnreadable _ _ _ | settingsFileBroken _
  | settingsFileNotObject _ | filterInvalid _ | levelNameUnknown => .badValue

/-- Whether a fault is one that only reading a map gives rise to. -/
def isCodec (f : Fault) : Bool := f.kind.codecName?.isSome

/-- At least two hexadecimal digits after the sign and `0x`. -/
def codeText (code : Int) : String :=
  let digits := Nat.toDigits 16 code.natAbs
  (if code < 0 then "-0x" else "0x")
    ++ String.ofList (if code < 0 || 1 < digits.length then digits else '0' :: digits)

/-- The text of a fault, for those that explain themselves and can tell their values. -/
def message? : Fault → Option String
  | mapUnterminated => some "field map ended without separator"
  | keyLengthMissing code => some ("missing keydata length for type " ++ codeText code.toNat)
  | valueLengthMissing => some "missing value length"
  | shortRead expected received => some s!"expected {expected} bytes, got {received}"
  | keyTooLong length limit =>
    limit.quoted?.map (s!"keydata length {length} exceeds maximum " ++ ·)
  | valueTooLong length limit =>
    limit.quoted?.map (s!"value length {length} exceeds maximum " ++ ·)
  | longForm marker size =>
    some ("non-canonical compact size: prefix " ++ Bytes.hex [marker] ++ s!" for {size}")
  | unknownType code => some ("unknown PST output field type: " ++ codeText code)
  | trailingBytes count => some s!"{count} trailing bytes after output separator"
  | duplicateField type => some ("duplicate key: " ++ type.label)
  | duplicateKey type key => some ("duplicate key: " ++ type.label ++ " " ++ key.hex)
  | keyNotEmpty type => some ("key for " ++ type.label ++ " must be empty")
  | keyMalformed type length =>
    let form := if type = .keyOrigin then "a compressed pubkey" else "an x-only pubkey"
    some ("key for " ++ type.label ++ " is not " ++ form ++ s!": len={length}")
  | valueNotXOnlyKey type length =>
    some ("value for " ++ type.label ++ s!" is not an x-only pubkey: len={length}")
  | originLength packed =>
    some (s!"unexpected packed path length: {packed.length}. val=" ++ packed.hex)
  | tapOriginTooShort length => some s!"taproot derivation value too short: {length}"
  | tapOriginTooShortFor leafHashes length =>
    some s!"taproot derivation value too short for {leafHashes} leaf hashes: {length}"
  | leafCountUnreadable cause =>
    some ("cannot read number of leaf hashes: " ++ cause.kind.codecName?.getD ""
      ++ "(" ++ Text.quoted (cause.message?.getD "") ++ ")")
  | levelInvalid level => some ("invalid bip32 path level: " ++ Text.quoted level)
  | levelTooGreat level => some ("bip32 path level out of range: " ++ Text.quoted level)
  | levelNotNumber level => level.quoted?.map ("bip32 path level must be int: " ++ ·)
  | levelOutOfRange level => (Text.ofInt? level).map ("bip32 path level out of range: " ++ ·)
  | childOutOfRange child => child.quoted?.map ("bip32 path child index out of range: " ++ ·)
  | fingerprintLength length => some s!"fingerprint must be 4 bytes, got {length}"
  | packedFingerprintLength fingerprint =>
    some ("unexpected xfp length. xfp=" ++ fingerprint.hex)
  | leafHashLength length => some s!"unexpected leaf hash length: {length}"
  | keyNotCompressed key => some ("not a compressed pubkey: " ++ key.hex)
  | keyNotXOnly key => some ("not an x-only pubkey: " ++ key.hex)
  | internalKeyInvalid shown => some ("tap_internal_key must be an x-only pubkey: " ++ shown)
  | notMapText => some "expected raw bytes or a hex string"
  | numberNegative v | typeOutOfRange v => v.quoted?
  | unimplemented => some ""
  | optionKeyNotText key => key.quoted?.map ("config key must be str, got " ++ ·)
  | settingDefinedTwice key => key.quoted?.map ("duplicate config key: " ++ ·)
  | settingUnreadable key value kind => do
    return "config key " ++ (← key.quoted?) ++ ": cannot read " ++ (← value.quoted?) ++ " as "
      ++ kind
  | settingsFileBroken path => some ("invalid config file at " ++ path.toString)
  | settingsFileNotObject path =>
    some ("invalid config file at " ++ path.toString ++ ": not a json object")
  | filterInvalid filter => some ("invalid log filter: " ++ Text.quoted filter)
  | _ => none

end Fault

end PartialTx
