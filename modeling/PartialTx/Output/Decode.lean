import PartialTx.Output.Wire
import PartialTx.Settings.Variable

/-! Decoding under settings, which give the limits and say whether each field that is
read leaves a line in the log. -/

namespace PartialTx

namespace Settings

/-- What settings say about the reading of a map. -/
structure Reading where
  limits : Limits
  debug : Bool

/-- The largest value may be given, in place of the setting. -/
def reading (s : Settings) (maxValue : Value) : Except Fault Reading := do
  let value ← if maxValue.isNull then Variable.maxValueLength.read s else pure maxValue
  let key ← Variable.maxKeyLength.read s
  let debug ← Variable.debugParsing.read s
  return { limits := { key, value }, debug := debug.truth }

end Settings

namespace Output

/-- What comes of reading under settings: the progress made, and the lines for the log. -/
structure Decoded (σ : Type) where
  outcome : Except Fault Unit
  progress : Progress (Output σ)
  lines : List String

/-- Reads a map off a stream into a record. Settings that cannot be read leave the stream
alone. -/
def decodeInto {σ : Type} [Script σ] (s : Settings) (maxValue : Value) (r : Output σ)
    (stream : Stream) : Decoded σ :=
  match s.reading maxValue with
  | .error fault =>
    { outcome := .error fault, progress := { state := r, stream }, lines := [] }
  | .ok reading =>
    let (outcome, progress) := populate reading.limits r stream
    let lines := if reading.debug then progress.fields.reverse.map Field.line else []
    { outcome, progress, lines }

/-- The bytes of a map given as bytes or as hexadecimal text; null stands for no bytes. -/
def mapOfValue (raw : Value) : Except Fault Bytes :=
  match raw with
  | .text t => if Bytes.isHexText t then raw.toBytes.map (·.getD []) else .error .notMapText
  | raw => Stream.contentOfValue raw

/-- Decodes a map that must fill the bytes to their end, and gives the lines for the log. -/
def decode (s : Settings) (maxValue raw : Value) : Except Fault (Output Bytes) × List String :=
  match mapOfValue raw with
  | .error fault => (.error fault, [])
  | .ok bytes =>
    let decoded := decodeInto s maxValue {} (.ofBytes bytes)
    (complete (decoded.outcome, decoded.progress), decoded.lines)

end Output

end PartialTx
