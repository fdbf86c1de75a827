import PartialTx.Proofs.Output.RoundTrip
import PartialTx.Proofs.Output.StoringInPlace

/-! A reading that fails. The record is changed in place, field by field, so that what has
been stored stays; it is what the fields read before the failure come to, as if a separator
had stood behind them, and the field that could not be read or was refused has left no trace
in it. -/

namespace PartialTx.Output

open PartialTx.Stream (Advance)

variable {σ : Type} (scriptOf : Value → Except Fault (Option σ))

/-! ### The loop -/

/-- Stores a field that was read off a map in place. An empty key is passed on as none. -/
def RecordM.fillRead (f : Field) : RecordM σ Unit :=
  RecordM.fill scriptOf (.int f.code.toNat) (if f.key.isEmpty then .null else .bytes f.key)
    (.bytes f.value)

/-- Reads a map into a record that is changed in place. -/
def populateInPlace (limits : Limits) (r : Output σ) (stream : Stream) :
    Except Fault Unit × Output σ × Stream :=
  match _h : Stream.run (Field.read limits) stream with
  | (.error fault, stream) => (.error fault, r, stream)
  | (.ok none, stream) => (.ok (), r, stream)
  | (.ok (some f), stream) =>
    match RecordM.run (RecordM.fillRead scriptOf f) r with
    | (.error fault, r) => (.error fault, r, stream)
    | (.ok (), r) => populateInPlace limits r stream
termination_by stream.remaining
decreasing_by exact Field.remaining_lt_of_read _h

theorem populateInPlace_eq (limits : Limits) (r : Output σ) (stream : Stream) :
    populateInPlace scriptOf limits r stream =
      match Stream.run (Field.read limits) stream with
      | (.error fault, stream) => (.error fault, r, stream)
      | (.ok none, stream) => (.ok (), r, stream)
      | (.ok (some f), stream) =>
        match RecordM.run (RecordM.fillRead scriptOf f) r with
        | (.error fault, r) => (.error fault, r, stream)
        | (.ok (), r) => populateInPlace scriptOf limits r stream := by
  rw [populateInPlace]
  split <;> rename_i h <;> simp only [h]

section
variable {scriptOf} [Script σ] (hscript : Script.KeepsBytes scriptOf)
include hscript

theorem RecordM.replaces_fillRead (f : Field) (r : Output σ) :
    Replaces (fillRead scriptOf f) r (r.store f) := by
  have hkey : r.storeValuesWith scriptOf (.int f.code.toNat)
      (if f.key.isEmpty then .null else .bytes f.key) (.bytes f.value) = r.store f := by
    rw [← storeValuesWith_bytes hscript]
    split
    next hempty =>
      rw [List.isEmpty_iff.1 hempty]
      exact storeValuesWith_null r
    next => rfl
  rw [← hkey]
  exact replaces_fill scriptOf _ _ _ r

/-- No field is stored in part: reading in place comes to what reading with a new record for each
field comes to. -/
theorem populateInPlace_of_populate (limits : Limits) (p : Progress (Output σ)) :
    populateInPlace scriptOf limits p.state p.stream =
      ((FieldMap.populate store limits p).1, (FieldMap.populate store limits p).2.state,
        (FieldMap.populate store limits p).2.stream) := by
  fun_induction FieldMap.populate store limits p with
  | case1 p fault stream hread => rw [populateInPlace_eq, hread]
  | case2 p stream hread => rw [populateInPlace_eq, hread]
  | case3 p f stream hread fault hstore =>
    have hfill : RecordM.run (RecordM.fillRead scriptOf f) p.state = (.error fault, p.state) := by
      simpa only [RecordM.Replaces, hstore] using RecordM.replaces_fillRead hscript f p.state
    rw [populateInPlace_eq, hread]
    simp only [hfill]
  | case4 p f stream hread r hstore ih =>
    have hfill : RecordM.run (RecordM.fillRead scriptOf f) p.state = (.ok (), r) := by
      simpa only [RecordM.Replaces, hstore] using RecordM.replaces_fillRead hscript f p.state
    rw [populateInPlace_eq, hread]
    simp only [hfill, ih]

/-! ### Failure -/

/-- Decoding that fails, off a stream that answers each read as it may, leaves in the record what
fields in front of the stream come to: decoding these alone, with a separator behind them, succeeds
and leaves the same. The failure is that of the next field, which cannot be read or not be stored.
-/
theorem exists_fields_of_decodeInto_error {s : Settings} {maxValue : Value} {K V : Int}
    (hK : K < Value.sizeBound) (hV : V < Value.sizeBound) (hs : s.Allows maxValue K V)
    {r : Output σ} {stream : Stream} {d : Decoded σ} {fault : Fault}
    (hd : decodeInto s maxValue r stream = d) (hfault : d.outcome = .error fault) :
    populateInPlace scriptOf (.upTo K V) r stream =
      (.error fault, d.progress.state, d.progress.stream) ∧
    ∃ fs p, (∀ f ∈ fs, f.Fits K V) ∧ Advance stream p.stream (FieldMap.body fs) ∧
      (∃ d', decodeInto s maxValue r (.ofBytes (FieldMap.body fs ++ [Field.separator])) = d' ∧
        d'.outcome = .ok () ∧ d'.progress.state = d.progress.state) ∧
      p.state = d.progress.state ∧
      FieldMap.Stops store (.upTo K V) p (.error fault) d.progress := by
  subst hd
  obtain ⟨houtcome, hprogress⟩ := decodeInto_of_allows hs r stream
  rw [houtcome] at hfault
  rw [hprogress]
  refine ⟨?_, ?_⟩
  · rw [← hfault]
    exact populateInPlace_of_populate hscript (.upTo K V) { state := r, stream }
  · obtain ⟨fs, p, hfits, hfold, -, hadv, hstops⟩ := FieldMap.exists_stops hK hV
      (p := { state := r, stream }) (Prod.ext hfault rfl)
    have hrest : (Stream.ofBytes (FieldMap.body fs ++ [Field.separator])).rest =
        FieldMap.encode fs ++ [] := by
      rw [Stream.rest_ofBytes, FieldMap.encode_eq, List.append_nil]
    obtain ⟨t, -, hpopulate⟩ := FieldMap.complete_populate hK hV hfits
      (p := { state := r, stream := .ofBytes (FieldMap.body fs ++ [Field.separator]) })
      (Stream.plain_ofBytes _) hrest hfold
    obtain ⟨houtcome', hprogress'⟩ := decodeInto_of_allows hs r
      (.ofBytes (FieldMap.body fs ++ [Field.separator]))
    rw [populate, hpopulate] at houtcome' hprogress'
    refine ⟨fs, p, hfits, hadv, ⟨_, rfl, houtcome', ?_⟩, hstops.state_eq, hstops⟩
    rw [hprogress']
    exact hstops.state_eq

end

/-- A stream of two fields with values of two bytes, at a position and after calls. It answers all
reads in full but the tenth, which gets one byte only. -/
def faltering (position : Nat) (calls : List PartialTx.Call) : Stream where
  content := FieldMap.encode [⟨2, [], [7, 8]⟩, ⟨5, [], [1, 2]⟩]
  position := position
  answer := fun reads => if reads = 9 then .atMost 1 else .full
  reads := calls.length
  calls := calls

/-- The calls that reading its first field makes, the latest first. -/
def firstCalls : List PartialTx.Call := [.read 2 2, .read 1 1, .read 0 0, .read 1 1, .read 1 1]

theorem read_faltering : Stream.run (Field.read (.upTo 10000 37)) (faltering 0 []) =
    (.ok (some ⟨2, [], [7, 8]⟩), faltering 5 firstCalls) := by
  have hkey : Stream.run (Field.readKey (.int 10000)) (faltering 0 []) =
      (.ok (some (2, [])), faltering 2 [.read 0 0, .read 1 1, .read 1 1]) := by
    simp only [Field.readKey, Stream.run_bind, Stream.run_read]
    rfl
  have hvalue : Stream.run (Field.readValue (.int 37))
      (faltering 2 [.read 0 0, .read 1 1, .read 1 1]) =
        (.ok [7, 8], faltering 5 firstCalls) := rfl
  simp only [Field.read, Limits.upTo, Stream.run_bind, hkey, hvalue, Stream.run_pure]

/-- Of the second value there is only one byte. -/
theorem read_faltering_error :
    Stream.run (Field.read (.upTo 10000 37)) (faltering 5 firstCalls) =
      (.error (.shortRead 2 1), faltering 9
        (.read 2 1 :: .read 1 1 :: .read 0 0 :: .read 1 1 :: .read 1 1 :: firstCalls)) := by
  have hkey : Stream.run (Field.readKey (.int 10000)) (faltering 5 firstCalls) =
      (.ok (some (5, [])), faltering 7 (.read 0 0 :: .read 1 1 :: .read 1 1 :: firstCalls)) := by
    simp only [Field.readKey, Stream.run_bind, Stream.run_read]
    rfl
  have hvalue : Stream.run (Field.readValue (.int 37))
      (faltering 7 (.read 0 0 :: .read 1 1 :: .read 1 1 :: firstCalls)) =
        (.error (.shortRead 2 1), faltering 9
          (.read 2 1 :: .read 1 1 :: .read 0 0 :: .read 1 1 :: .read 1 1 :: firstCalls)) := rfl
  simp only [Field.read, Limits.upTo, Stream.run_bind, hkey, hvalue]

/-- The first value is read off it and stored, and the second is not. The record has a script that
is a text. -/
theorem fields_of_faltering :
    let r : Output Value := { unordered.map .bytes with redeemScript := some (.text "script") }
    ∃ d, decodeInto .builtIn (.int 37) r (faltering 0 []) = d ∧
      d.outcome = .error (.shortRead 2 1) ∧
      d.progress.state = { r with witnessScript := some (.bytes [7, 8]) } ∧
      ∃ fs p, Advance (faltering 0 []) p.stream (FieldMap.body fs) ∧
        FieldMap.Stops store (.upTo 10000 37) p (.error (.shortRead 2 1)) d.progress := by
  intro r
  have hstore : r.store ⟨2, [], [7, 8]⟩ = .ok { r with witnessScript := some (.bytes [7, 8]) } :=
    rfl
  obtain ⟨houtcome, hprogress⟩ := decodeInto_of_allows (V := 37) allows_builtIn r (faltering 0 [])
  rw [populate, FieldMap.populate_eq] at houtcome hprogress
  simp only [read_faltering, hstore, FieldMap.populate_eq, read_faltering_error]
    at houtcome hprogress
  obtain ⟨-, fs, p, -, hadv, -, -, hstops⟩ := exists_fields_of_decodeInto_error
    Script.keepsBytes_given (by decide) (by decide) allows_builtIn rfl houtcome
  exact ⟨_, rfl, houtcome, by rw [hprogress], fs, p, hadv, hstops⟩

end PartialTx.Output
