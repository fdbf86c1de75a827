import PartialTx.Proofs.FieldMap.Rounds
import PartialTx.Proofs.Output.Grammar

/-! What decoding asks of a stream. However long the sizes that the stream declares are, and
however little it hands out at a time, decoding goes on for no more rounds than fields have room
on it, and asks for no more at once than the limits allow. -/

namespace PartialTx.Output

open PartialTx.Stream (Asked)

/-- Decoding from any stream into any record. It goes through at most one round for every three
bytes and one more. A round makes at most seven calls, each for a size that is not negative and
not above the limits. These are the calls that the stream has had in the end, but for the one that
failed if the last did, and there is a round for every field that was read. -/
theorem requests_of_decodeInto {σ : Type} [Script σ] {s : Settings} {maxValue : Value} {K V : Int}
    (hs : s.Allows maxValue K V) (r : Output σ) (stream : Stream) :
    let d := decodeInto s maxValue r stream
    let rounds := FieldMap.rounds store (.upTo K V) { state := r, stream }
    rounds.length ≤ stream.content.length / 3 + 1 ∧
    (∀ round ∈ rounds, round.length ≤ 7 ∧ ∀ size ∈ round, 0 ≤ size ∧ size ≤ max 8 (max K V)) ∧
    Asked d.outcome stream d.progress.stream rounds.flatten ∧
    d.progress.fields.length ≤ rounds.length ∧ rounds.length ≤ d.progress.fields.length + 1 := by
  intro d rounds
  let start : Progress (Output σ) := { state := r, stream }
  obtain ⟨houtcome, hprogress⟩ := decodeInto_of_allows hs r stream
  have hlength : rounds.length ≤ stream.remaining / 3 + 1 :=
    FieldMap.length_rounds_le store (.upTo K V) start
  have hremaining : stream.remaining ≤ stream.content.length := Nat.sub_le ..
  obtain ⟨hread, hread'⟩ := FieldMap.length_fields store (.upTo K V) start
  refine ⟨by omega, FieldMap.within_rounds store K V start, ?_, ?_, ?_⟩
  · rw [show d.outcome = _ from houtcome, show d.progress = _ from hprogress]
    exact FieldMap.asked_rounds store (.upTo K V) start
  · rw [show d.progress = _ from hprogress]
    exact Nat.le_trans hread (Nat.le_of_eq (Nat.zero_add _))
  · rw [show d.progress = _ from hprogress]
    exact Nat.le_trans (Nat.le_of_eq (Nat.zero_add _).symm) hread'

/-- A stream that declares a value of 2 ^ 64 - 1 bytes is not asked for any of them. -/
theorem requests_of_greatest_size :
    let stream : Stream :=
      { content := 1 :: 0 :: List.replicate 9 0xff, answer := fun _ => .atMost 8 }
    let d := decodeInto .builtIn (.int 37) ({} : Output Bytes) stream
    Asked d.outcome stream d.progress.stream [1, 1, 0, 1, 8] := by
  intro stream d
  have hrequests : (Field.plan (.upTo 10000 37)).requests stream = [1, 1, 0, 1, 8] := by
    decide +kernel
  have hfails : (Stream.run (Field.read (.upTo 10000 37)) stream).1.toOption = none := by
    decide +kernel
  obtain ⟨fault, t, hread⟩ : ∃ fault t,
      Stream.run (Field.read (.upTo 10000 37)) stream = (.error fault, t) := by
    rcases hr : Stream.run (Field.read (.upTo 10000 37)) stream with ⟨fault | next, t⟩
    · exact ⟨fault, t, rfl⟩
    · rw [hr] at hfails
      cases hfails
  let start : Progress (Output Bytes) := { state := {}, stream }
  have hstops : FieldMap.Stops store (.upTo 10000 37) start (.error fault)
      { start with stream := t } := .unread hread
  have hrounds := FieldMap.rounds_of_stops hstops
  obtain ⟨-, -, hasked, -⟩ :=
    requests_of_decodeInto (V := 37) allows_builtIn start.state start.stream
  rw [show FieldMap.rounds _ _ _ = _ from hrounds, hrequests] at hasked
  exact hasked

end PartialTx.Output
