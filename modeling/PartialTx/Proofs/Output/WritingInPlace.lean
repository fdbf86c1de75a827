import PartialTx.Proofs.FieldMap
import PartialTx.Proofs.Output.RoundTrip
import PartialTx.Proofs.Stream.Writing

/-! Writing a record to a stream that comes to refuse calls. The record is looked at as the
writing goes on, part by part, and nothing is put into it. What is on the stream then is what
the calls before the refusal wrote: all of the map, or a start of it without the separator. -/

namespace PartialTx

namespace FieldMap

theorem length_chunks (fs : List Field) : (chunks fs).length = 5 * fs.length + 1 := by
  have hbody : (fs.flatMap Field.chunks).length = 5 * fs.length := by
    induction fs with
    | nil => rfl
    | cons f fs ih =>
      rw [List.flatMap_cons, List.length_append, ih, List.length_cons, Field.chunks]
      simp only [List.length_cons, List.length_nil]
      omega
  rw [chunks, List.length_append, hbody, List.length_singleton]

/-- Without the last chunk the separator is missing, and whatever else stands behind the cut. -/
theorem encode_eq_take {fs : List Field} {n : Nat} (hn : n < (chunks fs).length) :
    ∃ more, encode fs = ((chunks fs).take n).flatten ++ more ++ [Field.separator] := by
  have hbody : n ≤ (fs.flatMap Field.chunks).length := by
    rw [chunks, List.length_append, List.length_singleton] at hn
    omega
  have htake : (chunks fs).take n = (fs.flatMap Field.chunks).take n :=
    List.take_append_of_le_length hbody
  refine ⟨((fs.flatMap Field.chunks).drop n).flatten, ?_⟩
  rw [htake, ← List.flatten_append, List.take_append_drop, encode, chunks, List.flatten_append]
  rfl

end FieldMap

namespace Output

/-- How many fields a record has. -/
def count {σ : Type} (r : Output σ) : Nat :=
  r.redeemScript.toList.length + r.witnessScript.toList.length + r.keyOrigins.length
    + r.tapInternalKey.toList.length + r.tapTree.toList.length + r.tapOrigins.length

theorem length_fields (r : Output Bytes) : r.fields.length = r.count := by
  have hkeys : (Keyed.sort r.keyOrigins).length = r.keyOrigins.length :=
    (Keyed.perm_sort r.keyOrigins).length_eq
  have htaps : (TapOrigin.sort r.tapOrigins).length = r.tapOrigins.length := by
    rw [TapOrigin.sort_eq]
    exact (Keyed.perm_sort r.tapOrigins).length_eq
  simp only [fields, count, single, List.length_append, List.length_map, hkeys, htaps]

/-! ### Writing as it goes on -/

/-- Actions on a record and a stream. What an action did to them before it failed stays. -/
abbrev WritingM := ExceptT Fault (StateM (Output Value × Stream))

namespace WritingM

def run {α : Type} (action : WritingM α) (r : Output Value) (s : Stream) :
    Except Fault α × Output Value × Stream := Id.run (StateT.run (ExceptT.run action) (r, s))

/-- The record as it stands. -/
def record : WritingM (Output Value) := do return (← get).1

/-- What an action on a stream does there. -/
def onStream {α : Type} (x : StreamM α) : WritingM α := ExceptT.mk fun (r, s) =>
  let (outcome, s) := Stream.run x s
  (outcome, r, s)

/-- The fields that each part of a record comes to, in the order in which they are written. -/
def parts : List (Output Value → List UncheckedField) :=
  [fun r => givenSingle .redeemScript r.redeemScript,
    fun r => givenSingle .witnessScript r.witnessScript,
    fun r => (Keyed.sort r.keyOrigins).map fun o => (ofKeyOrigin o).unchecked,
    fun r => (single .tapInternalKey r.tapInternalKey).map Field.unchecked,
    fun r => givenSingle .tapTree r.tapTree,
    fun r => (TapOrigin.sort r.tapOrigins).map fun o => (ofTapOrigin o).unchecked]

/-- Looks at one part of the record and writes its fields. -/
def writePart (part : Output Value → List UncheckedField) : WritingM Unit := do
  let r ← record
  (part r).forM fun f => onStream f.write

def write : WritingM Unit := do
  parts.forM writePart
  onStream Field.writeSeparator

/-! ### The record stays -/

/-- The action does on a stream what `x` does, and nothing to the record. -/
def Keeps {α : Type} (action : WritingM α) (r : Output Value) (x : StreamM α) : Prop :=
  ∀ s, run action r s = ((Stream.run x s).1, r, (Stream.run x s).2)

section
variable {α β : Type} {r : Output Value}

theorem keeps_onStream (x : StreamM α) : Keeps (onStream x) r x := fun _ => rfl

theorem keeps_pure (a : α) : Keeps (pure a) r (pure a) := fun _ => rfl

theorem Keeps.record_bind {next : Output Value → WritingM α} {x : StreamM α}
    (h : Keeps (next r) r x) : Keeps (record >>= next) r x := h

theorem run_bind (action : WritingM α) (next : α → WritingM β) (r : Output Value)
    (s : Stream) : run (action >>= next) r s =
      match run action r s with
      | (.ok a, r, s) => run (next a) r s
      | (.error fault, r, s) => (.error fault, r, s) := by
  simp only [run, ExceptT.run, bind, ExceptT.bind, ExceptT.mk, StateT.bind, StateT.run,
    ExceptT.bindCont]
  rcases action (r, s) with ⟨_ | _, _⟩ <;> rfl

theorem Keeps.bind {action : WritingM α} {x : StreamM α} {next : α → WritingM β}
    {f : α → StreamM β} (h : Keeps action r x) (hnext : ∀ a, Keeps (next a) r (f a)) :
    Keeps (action >>= next) r (x >>= f) := by
  intro s
  rw [run_bind, h s, Stream.run_bind]
  rcases Stream.run x s with ⟨fault | a, t⟩
  · rfl
  · exact hnext a t

theorem Keeps.forM {f : β → WritingM Unit} {g : β → StreamM Unit} (h : ∀ b, Keeps (f b) r (g b))
    (bs : List β) : Keeps (bs.forM f) r (bs.forM g) := by
  induction bs with
  | nil => exact keeps_pure ()
  | cons b bs ih => exact (h b).bind fun _ => ih

theorem keeps_writePart (part : Output Value → List UncheckedField) :
    Keeps (writePart part) r ((part r).forM UncheckedField.write) := by
  have hfield (f : UncheckedField) : Keeps (onStream f.write) r f.write := keeps_onStream _
  unfold writePart
  exact (Keeps.forM hfield (part r)).record_bind

theorem keeps_write (r : Output Value) : Keeps write r r.writeGiven := by
  have hparts : (parts.forM fun part => (part r).forM UncheckedField.write) =
      r.givenFields.forM UncheckedField.write := by
    simp [parts, givenFields]
  rw [writeGiven, writeUnchecked, ← hparts]
  exact .bind (.forM keeps_writePart parts) fun _ => keeps_onStream _

end

end WritingM

/-! ### Refusal -/

/-- Writing a record of byte strings at the end of a stream that refuses all calls but the next
so many. The calls that are made write so many chunks of the map. With enough of them all of it
is written; else writing fails, and what is there is a start of the map that lacks at least the
separator. The record stays as it was. -/
theorem write_of_writesLeft (r : Output Bytes) {s : Stream} (hs : s.AtEnd) {n : Nat}
    (hn : s.writesLeft = some n) :
    ∃ outcome t, Stream.run (r.map .bytes).writeGiven s = (outcome, t) ∧
      WritingM.run WritingM.write (r.map .bytes) s = (outcome, r.map .bytes, t) ∧
      t.calls = (((FieldMap.chunks r.fields).take n).map Call.write).reverse ++ s.calls ∧
      (5 * r.count + 1 ≤ n → outcome = .ok () ∧ t.content = s.content ++ r.toBytes) ∧
      (n < 5 * r.count + 1 → (∃ fault, outcome = .error fault ∧ fault.kind = .storage) ∧
        t.content = s.content ++ ((FieldMap.chunks r.fields).take n).flatten ∧
        ∃ more, r.toBytes =
          ((FieldMap.chunks r.fields).take n).flatten ++ more ++ [Field.separator]) := by
  have hlen : (FieldMap.chunks r.fields).length = 5 * r.count + 1 := by
    rw [FieldMap.length_chunks, length_fields]
  obtain ⟨t, hrun, ht⟩ := Stream.run_writeAll_of_writesLeft hs hn (FieldMap.chunks r.fields)
  have hgiven : Stream.run (r.map .bytes).writeGiven s = _ :=
    (congrArg (Stream.run · s) (writeGiven_map_bytes r)).trans hrun
  refine ⟨_, t, hgiven, ?_, ht.calls_eq, fun hle => ⟨?_, ?_⟩, fun hlt => ⟨⟨.writeRefused, ?_, rfl⟩,
    ht.content_eq, FieldMap.encode_eq_take (hlen ▸ hlt)⟩⟩
  · rw [WritingM.keeps_write (r.map .bytes) s, hgiven]
  · exact if_pos (hlen ▸ hle)
  · rw [ht.content_eq, List.take_of_length_le (hlen ▸ hle)]
    rfl
  · exact if_neg (hlen ▸ Nat.not_le.2 hlt)

/-- A record of an empty script and of the origin of a key, which takes eleven calls. With seven
there are the script and the start of the origin behind what was there; with eleven there is all. -/
theorem write_of_seven_and_of_eleven :
    let r : Output Bytes :=
      { witnessScript := some []
        keyOrigins := [⟨2 :: List.replicate 32 7, [1, 2, 3, 4], [], rfl, rfl⟩] }
    let s (n : Nat) : Stream := { content := [9], position := 1, writesLeft := some n }
    (∃ fault t, Stream.run (r.map .bytes).writeGiven (s 7) = (.error fault, t) ∧
      fault.kind = .storage ∧ t.content = [9, 2, 0, 0, 3, 33]) ∧
    ∃ t, WritingM.run WritingM.write (r.map .bytes) (s 11) = (.ok (), r.map .bytes, t) ∧
      t.content = 9 :: r.toBytes := by
  intro r s
  constructor
  · obtain ⟨outcome, t, hrun, -, -, -, hrefused⟩ :=
      write_of_writesLeft r (s := s 7) ⟨rfl, rfl⟩ rfl
    obtain ⟨⟨fault, rfl, hkind⟩, hcontent, -⟩ := hrefused (by decide)
    have hfields : r.fields = [⟨2, [], []⟩, ⟨3, 2 :: List.replicate 32 7, [1, 2, 3, 4]⟩] := by
      simp only [r, fields, single, Keyed.sort, TapOrigin.sort_eq, List.mergeSort_nil,
        List.mergeSort_singleton]
      rfl
    rw [hfields] at hcontent
    exact ⟨fault, t, hrun, hkind, hcontent⟩
  · obtain ⟨outcome, t, -, hkeeps, -, hwritten, -⟩ :=
      write_of_writesLeft r (s := s 11) ⟨rfl, rfl⟩ rfl
    obtain ⟨rfl, hcontent⟩ := hwritten (by decide)
    exact ⟨t, hkeeps, hcontent⟩

end Output

end PartialTx
