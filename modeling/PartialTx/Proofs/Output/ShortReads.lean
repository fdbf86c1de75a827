import PartialTx.Proofs.Output.Truncation
import PartialTx.Proofs.Stream.Capping

/-! Decoding from a stream that gives short answers. It never goes on from one: as long as nothing
is asked for beyond what the stream hands out at once, decoding comes to the same as from a stream
that answers in full, and the first request beyond that is where it breaks off. -/

namespace PartialTx

open PartialTx.Stream (Records Notices Ended)

namespace FieldMap

variable {σ : Type} {store : σ → Field → Except Fault σ} {K V : Int}

theorem records_reading (state : σ) (fields : List Field) :
    Records (reading store (.upTo K V) state fields) := by
  have hread := (Field.checked_read K V).records
  suffices h : ∀ p : Progress σ,
      p.stream.calls <:+ (populate store (.upTo K V) p).2.stream.calls from
    fun s => h { state, stream := s, fields }
  intro p
  induction p using loop_induction store (.upTo K V) with
  | stops p q outcome hstops =>
    have hcalls := hread p.stream
    rw [hstops.populate_eq]
    cases hstops with
    | separator hr | unread hr | refused hr _ =>
      rw [hr] at hcalls
      exact hcalls
  | next p f t r hr hstore ih =>
    have hcalls := hread p.stream
    rw [hr] at hcalls
    rw [populate_of_read hr hstore]
    exact hcalls.trans ih

/-- The reading of a map notices every short answer. -/
theorem notices_reading (hK : K < Value.sizeBound) (hV : V < Value.sizeBound) {cap : Nat}
    (state : σ) (fields : List Field) {s : Stream} (hs : s.Plain) (hmodest : s.Modest cap) :
    Notices cap (reading store (.upTo K V) state fields) (fun result => Ended result.1) s := by
  have hb := mostAsked_lt hK hV
  have hread := Field.checked_read K V
  suffices h : ∀ p : Progress σ, p.stream.Plain → p.stream.Modest cap →
      Notices cap (reading store (.upTo K V) p.state p.fields) (fun result => Ended result.1)
        p.stream from
    h { state, stream := s, fields } hs hmodest
  intro p hp hmodest
  -- each round is a reading of its own, and the first short answer ends the whole of them
  induction p using loop_induction store (.upTo K V) with
  | stops p q outcome hstops =>
    have hround := hread.notices hb hp hmodest
    cases hstops with
    | separator hr | unread hr =>
      exact hround.stop hr ended_reading fun h => by rw [reading_eq, h]
    | @refused f fault t hr hstore =>
      have hstop {s t : Stream} (h : Stream.run (Field.read (.upTo K V)) s = (.ok (some f), t)) :
          reading store (.upTo K V) p.state p.fields s =
            ((.error fault, p.state, f :: p.fields), t) := by
        rw [reading_eq, h]
        simp only [hstore]
      exact hround.stop hr ended_reading hstop
  | next p f t r hr hstore ih =>
    refine (hread.notices hb hp hmodest).trans hr (ih (hread.plain_of_run hb hp hr))
      (records_reading r _) ended_reading fun h => ?_
    rw [reading_eq, h]
    simp only [hstore]

end FieldMap

namespace Output

section
variable {σ : Type} [Script σ] {s : Settings} {maxValue : Value} {K V : Int}

/-- Decoding a byte string from a stream under a cap on what a read gets. If decoding from the
stream without the cap makes no read of more bytes than that, both come to the same and stop at
the same place; otherwise decoding under the cap finds that the stream has ended. So a record that
is decoded under the cap is the one that is decoded without it. -/
theorem decodeInto_of_capAt (hK : K < Value.sizeBound) (hV : V < Value.sizeBound)
    (hs : s.Allows maxValue K V) (r : Output σ) (raw : Bytes) (cap : Nat) :
    let full := decodeInto s maxValue r (.ofBytes raw)
    let capped := decodeInto s maxValue r ((Stream.ofBytes raw).capAt cap)
    (full.progress.stream.Modest cap → capped.outcome = full.outcome ∧
      capped.progress.state = full.progress.state ∧ capped.lines = full.lines ∧
      capped.progress.stream.position = full.progress.stream.position) ∧
    (¬ full.progress.stream.Modest cap → ∃ fault, capped.outcome = .error fault ∧
      fault.kind = .unexpectedEnd) ∧
    (capped.outcome = .ok () → full.outcome = .ok () ∧
      full.progress.state = capped.progress.state) := by
  intro full capped
  obtain ⟨debug, hs⟩ := hs
  have hfull : full = _ := decodeInto_eq hs r (.ofBytes raw)
  have hcapped : capped = _ := decodeInto_eq hs r ((Stream.ofBytes raw).capAt cap)
  have hmodest : (Stream.ofBytes raw).Modest cap := nofun
  have hnotices : Notices cap (FieldMap.reading store (.upTo K V) r []) _ (.ofBytes raw) :=
    FieldMap.notices_reading hK hV r [] (Stream.plain_ofBytes raw) hmodest
  rw [hfull, hcapped]
  obtain ⟨hall, hsame⟩ | ⟨hsome, hended⟩ := hnotices
  · rw [hsame]
    exact ⟨fun _ => ⟨rfl, rfl, rfl, rfl⟩, fun hsome => absurd hall hsome, fun hok => ⟨hok, rfl⟩⟩
  · refine ⟨fun hall => absurd hall hsome, fun _ => hended, fun hok => ?_⟩
    obtain ⟨fault, hfault, -⟩ := hended
    cases hok.symm.trans hfault

end

/-- A stream of a tree of two bytes, at a position and after calls. -/
def treeOfTwo (position : Nat) (calls : List PartialTx.Call) : Stream where
  content := FieldMap.encode [⟨5, [], [1, 2]⟩]
  position := position
  reads := calls.length
  calls := calls

/-- The calls that reading its field makes, the latest first. -/
def treeCalls : List PartialTx.Call :=
  [.read 2 2, .read 1 1, .read 0 0, .read 1 1, .read 1 1]

theorem read_treeOfTwo : Stream.run (Field.read (.upTo 10000 37)) (treeOfTwo 0 []) =
    (.ok (some ⟨5, [], [1, 2]⟩), treeOfTwo 5 treeCalls) := by
  have hkey : Stream.run (Field.readKey (.int 10000)) (treeOfTwo 0 []) =
      (.ok (some (5, [])), treeOfTwo 2 [.read 0 0, .read 1 1, .read 1 1]) := by
    simp only [Field.readKey, Stream.run_bind, Stream.run_read]
    rfl
  have hvalue : Stream.run (Field.readValue (.int 37))
      (treeOfTwo 2 [.read 0 0, .read 1 1, .read 1 1]) = (.ok [1, 2], treeOfTwo 5 treeCalls) := rfl
  simp only [Field.read, Limits.upTo, Stream.run_bind, hkey, hvalue, Stream.run_pure]

theorem read_treeOfTwo_separator :
    Stream.run (Field.read (.upTo 10000 37)) (treeOfTwo 5 treeCalls) =
      (.ok none, treeOfTwo 6 (.read 1 1 :: treeCalls)) := rfl

/-- A tree of two bytes is decoded from a stream that hands out two bytes at a time, and not from
one that hands out a single byte. -/
theorem decodeInto_of_treeOfTwo :
    let raw := FieldMap.encode [⟨5, [], [1, 2]⟩]
    let wide := decodeInto .builtIn (.int 37) ({} : Output Bytes) ((Stream.ofBytes raw).capAt 2)
    let narrow := decodeInto .builtIn (.int 37) ({} : Output Bytes) ((Stream.ofBytes raw).capAt 1)
    (wide.outcome = .ok () ∧ wide.progress.state = { tapTree := some [1, 2] } ∧
      wide.progress.stream.position = 6) ∧
    ∃ fault, narrow.outcome = .error fault ∧ fault.kind = .unexpectedEnd := by
  intro raw wide narrow
  have hK : (10000 : Int) < Value.sizeBound := by decide
  have hV : (37 : Int) < Value.sizeBound := by decide
  have hstore : store ({} : Output Bytes) ⟨5, [], [1, 2]⟩ = .ok { tapTree := some [1, 2] } := rfl
  obtain ⟨houtcome, hprogress⟩ := decodeInto_of_allows (V := 37) allows_builtIn
    ({} : Output Bytes) (treeOfTwo 0 [])
  rw [populate, FieldMap.populate_eq] at houtcome hprogress
  simp only [read_treeOfTwo, hstore, FieldMap.populate_eq, read_treeOfTwo_separator]
    at houtcome hprogress
  have hwide : (treeOfTwo 6 (.read 1 1 :: treeCalls)).Modest 2 := by
    unfold Stream.Modest
    decide
  have hnarrow : ¬ (treeOfTwo 6 (.read 1 1 :: treeCalls)).Modest 1 := by
    unfold Stream.Modest
    decide
  obtain ⟨hsame, -, -⟩ := decodeInto_of_capAt hK hV allows_builtIn ({} : Output Bytes) raw 2
  obtain ⟨-, hended, -⟩ := decodeInto_of_capAt hK hV allows_builtIn ({} : Output Bytes) raw 1
  rw [show Stream.ofBytes raw = treeOfTwo 0 [] from rfl] at hsame hended
  rw [hprogress] at hsame hended
  obtain ⟨hok, hstate, -, hposition⟩ := hsame hwide
  exact ⟨⟨hok.trans houtcome, hstate, hposition⟩, hended hnarrow⟩

end Output

end PartialTx
