import PartialTx.Proofs.Log.FieldLines
import PartialTx.Proofs.Output.Truncation

/-! Decoding with and without lines for the log. A line is left for each field that is read to its
end, before it is stored, so that the last of them may be refused. Nothing else depends on whether
the lines are left. -/

namespace PartialTx

open PartialTx.Stream (Advance)

namespace FieldMap

variable {σ : Type}

/-! ### Where a map ends -/

/-- How reading a map ends behind fields of which the last ends at `t`: all of them have been
stored, and the separator comes next or no field can be read; or the last one is refused. -/
inductive EndsBehind (store : σ → Field → Except Fault σ) (limits : Limits) (state : σ)
    (fs : List Field) (t : Stream) : Except Fault Unit → Stream → Prop
  | separator {r : σ} {u : Stream} (hstored : fs.foldlM store state = .ok r)
      (hread : Stream.run (Field.read limits) t = (.ok none, u)) :
    EndsBehind store limits state fs t (.ok ()) u
  | unread {r : σ} {fault : Fault} {u : Stream} (hstored : fs.foldlM store state = .ok r)
      (hread : Stream.run (Field.read limits) t = (.error fault, u)) :
    EndsBehind store limits state fs t (.error fault) u
  | refused {gs : List Field} {f : Field} {r : σ} {fault : Fault} (hlast : fs = gs ++ [f])
      (hstored : gs.foldlM store state = .ok r) (hrefused : store r f = .error fault) :
    EndsBehind store limits state fs t (.error fault) t

theorem exists_endsBehind {store : σ → Field → Except Fault σ} {K V : Int}
    (hK : K < Value.sizeBound) (hV : V < Value.sizeBound) {p q : Progress σ}
    {outcome : Except Fault Unit} (h : populate store (.upTo K V) p = (outcome, q)) :
    ∃ fs t, (∀ f ∈ fs, f.Fits K V) ∧ q.fields = fs.reverse ++ p.fields ∧
      Advance p.stream t (body fs) ∧
      EndsBehind store (.upTo K V) p.state fs t outcome q.stream := by
  obtain ⟨fs, p', hfits, hfold, hfields, hadv, hstops⟩ := exists_stops hK hV h
  cases hstops with
  | separator hread => exact ⟨fs, _, hfits, hfields, hadv, .separator hfold hread⟩
  | unread hread => exact ⟨fs, _, hfits, hfields, hadv, .unread hfold hread⟩
  | @refused f fault t hread hstore =>
    obtain ⟨bs, ⟨rfl, hf⟩, hs⟩ := (Field.reads_read hK hV).sound hread
    have hbody : body (fs ++ [f]) = body fs ++ f.encode := by
      rw [body, List.flatMap_append, List.flatMap_singleton]
      rfl
    refine ⟨fs ++ [f], t, ?_, ?_, hbody ▸ hadv.trans hs, .refused rfl hfold hstore⟩
    · exact List.forall_mem_append.2 ⟨hfits, List.forall_mem_singleton.2 hf⟩
    · rw [hfields, List.reverse_append]
      rfl

/-! ### The loop with its log -/

/-- Reads a map and sends a line to the log for each field that has been read, before it is
stored. -/
def populateLogging (store : σ → Field → Except Fault σ) (limits : Limits) (debug : Bool)
    (state : σ) (stream : Stream) (log : Log) : Except Fault Unit × σ × Stream × Log :=
  match _h : Stream.run (Field.read limits) stream with
  | (.error fault, stream) => (.error fault, state, stream, log)
  | (.ok none, stream) => (.ok (), state, stream, log)
  | (.ok (some f), stream) =>
    let log := if debug then log.emit Log.outputLogger Log.debug f.line else log
    match store state f with
    | .error fault => (.error fault, state, stream, log)
    | .ok state => populateLogging store limits debug state stream log
termination_by stream.remaining
decreasing_by exact Field.remaining_lt_of_read _h

section
variable (store : σ → Field → Except Fault σ) (limits : Limits) (debug : Bool)

theorem populateLogging_eq (state : σ) (stream : Stream) (log : Log) :
    populateLogging store limits debug state stream log =
      match Stream.run (Field.read limits) stream with
      | (.error fault, stream) => (.error fault, state, stream, log)
      | (.ok none, stream) => (.ok (), state, stream, log)
      | (.ok (some f), stream) =>
        let log := if debug then log.emit Log.outputLogger Log.debug f.line else log
        match store state f with
        | .error fault => (.error fault, state, stream, log)
        | .ok state => populateLogging store limits debug state stream log := by
  rw [populateLogging]
  split <;> rename_i h <;> simp only [h]

/-- What a log comes to when fields have left their lines in it, if they do. -/
def logged (fs : List Field) (log : Log) : Log :=
  if debug then log.emitLines (fs.map Field.line) else log

/-- The lines change nothing but the log, and they are those of the fields that have been read. -/
theorem populateLogging_of_populate (p : Progress σ) (log : Log) :
    let q := (populate store limits p).2
    ∃ fs, q.fields = fs.reverse ++ p.fields ∧
      populateLogging store limits debug p.state p.stream log =
        ((populate store limits p).1, q.state, q.stream, logged debug fs log) := by
  have hnil (log : Log) : logged debug [] log = log := by
    cases debug <;> rfl
  have hcons (f : Field) (fs : List Field) (log : Log) : logged debug (f :: fs) log =
      logged debug fs (if debug then log.emit Log.outputLogger Log.debug f.line else log) := by
    cases debug <;> rfl
  induction p using loop_induction store limits generalizing log with
  | stops p q outcome hstops =>
    rw [hstops.populate_eq]
    cases hstops with
    | separator hread | unread hread =>
      refine ⟨[], rfl, ?_⟩
      rw [populateLogging_eq, hread, hnil]
    | @refused f fault t hread hstore =>
      refine ⟨[f], rfl, ?_⟩
      rw [populateLogging_eq, hread, hcons, hnil]
      simp only [hstore]
  | next p f t r hread hstore ih =>
    obtain ⟨fs, hfields, hlogging⟩ := ih
      (if debug then log.emit Log.outputLogger Log.debug f.line else log)
    refine ⟨f :: fs, ?_, ?_⟩
    · rw [populate_of_read hread hstore, hfields, List.reverse_cons, List.append_assoc]
      rfl
    · rw [populate_of_read hread hstore, populateLogging_eq, hread, hcons]
      simp only [hstore]
      exact hlogging

end

end FieldMap

/-! ### Decoding -/

namespace Output

section
variable {σ : Type} [Script σ] {s s' : Settings} {maxValue maxValue' : Value} {K V : Int}

theorem decode_of_debug
    (hon : s.reading maxValue = .ok { limits := .upTo K V, debug := true })
    (hoff : s'.reading maxValue' = .ok { limits := .upTo K V, debug := false }) (raw : Bytes) :
    decode s maxValue (.bytes raw) =
        ((decode s' maxValue' (.bytes raw)).1,
          (decodeInto s maxValue ({} : Output Bytes) (.ofBytes raw)).lines) ∧
      (decode s' maxValue' (.bytes raw)).2 = [] := by
  have hsame : (decodeInto s maxValue ({} : Output Bytes) (.ofBytes raw)).outcome =
        (decodeInto s' maxValue' ({} : Output Bytes) (.ofBytes raw)).outcome ∧
      (decodeInto s maxValue ({} : Output Bytes) (.ofBytes raw)).progress =
        (decodeInto s' maxValue' ({} : Output Bytes) (.ofBytes raw)).progress := by
    simp only [decodeInto, hon, hoff, and_self]
  have hquiet : (decodeInto s' maxValue' ({} : Output Bytes) (.ofBytes raw)).lines = [] := by
    simp only [decodeInto, hoff]
    rfl
  refine ⟨?_, hquiet⟩
  show (complete (_, _), _) = (complete (_, _), _)
  rw [hsame.1, hsame.2]

/-- Whether lines are wanted has no bearing on the outcome of decoding, on the record or on the
stream. If they are, there is one for each field that has been read to its end, in the order of the
stream: these are the fields in front of the place where decoding stops, with the one that is
refused, if there is one, as the last. The lines go to the log one by one as the fields are read,
and a console for all messages shows each of them as one line. -/
theorem decodeInto_of_debug (hK : K < Value.sizeBound) (hV : V < Value.sizeBound)
    (hon : s.reading maxValue = .ok { limits := .upTo K V, debug := true })
    (hoff : s'.reading maxValue' = .ok { limits := .upTo K V, debug := false })
    (r : Output σ) (stream : Stream) :
    let d := decodeInto s maxValue r stream
    let quiet := decodeInto s' maxValue' r stream
    (d.outcome = quiet.outcome ∧ d.progress = quiet.progress ∧ quiet.lines = []) ∧
    (∃ fs t, (∀ f ∈ fs, f.Fits K V) ∧ Advance stream t (FieldMap.body fs) ∧
      FieldMap.EndsBehind store (.upTo K V) r fs t d.outcome d.progress.stream ∧
      d.lines = fs.map Field.line ∧ ∀ gs, d.lines = gs.map Field.line → gs = fs) ∧
    (∀ log : Log,
      FieldMap.populateLogging store (.upTo K V) true r stream log =
        (d.outcome, d.progress.state, d.progress.stream, log.emitLines d.lines) ∧
      FieldMap.populateLogging store (.upTo K V) false r stream log =
        (quiet.outcome, quiet.progress.state, quiet.progress.stream, log) ∧
      (log.loggers.AtStart → log.console = some Log.debug →
        (log.emitLines d.lines).lines = (d.lines.map Log.shownLine).reverse ++ log.lines)) ∧
    ∀ raw : Bytes,
      decode s maxValue (.bytes raw) =
        ((decode s' maxValue' (.bytes raw)).1,
          (decodeInto s maxValue ({} : Output Bytes) (.ofBytes raw)).lines) ∧
      (decode s' maxValue' (.bytes raw)).2 = [] := by
  intro d quiet
  rcases hpopulate : populate (.upTo K V) r stream with ⟨outcome, q⟩
  have hd : d = { outcome, progress := q, lines := q.fields.reverse.map Field.line } := by
    simp only [d, decodeInto, hon, hpopulate, if_true]
  have hquiet : quiet = { outcome, progress := q, lines := [] } := by
    simp only [quiet, decodeInto, hoff, hpopulate]
    rfl
  obtain ⟨fs, t, hfits, hfields, hadv, hends⟩ := FieldMap.exists_endsBehind hK hV hpopulate
  rw [List.append_nil] at hfields
  have hlines : d.lines = fs.map Field.line := by
    rw [hd, hfields, List.reverse_reverse]
  have hlogging (debug : Bool) (log : Log) :
      FieldMap.populateLogging store (.upTo K V) debug r stream log =
        (outcome, q.state, q.stream, FieldMap.logged debug fs log) := by
    obtain ⟨gs, hgs, hrun⟩ := FieldMap.populateLogging_of_populate store (.upTo K V) debug
      { state := r, stream } log
    rw [populate] at hpopulate
    rw [hpopulate] at hgs hrun
    rw [List.append_nil, hfields] at hgs
    rwa [List.reverse_injective hgs]
  refine ⟨?_, ⟨fs, t, hfits, hadv, ?_, hlines, fun gs hgs => ?_⟩, fun log => ⟨?_, ?_, ?_⟩,
    decode_of_debug hon hoff⟩
  · rw [hd, hquiet]
    exact ⟨rfl, rfl, rfl⟩
  · rw [hd]
    exact hends
  · exact (Field.map_line_inj (hlines.symm.trans hgs)).symm
  · rw [hlogging, hlines, hd]
    rfl
  · rw [hlogging, hquiet]
    rfl
  · intro hloggers hconsole
    rw [hlines, Log.lines_emitLines hloggers hconsole, List.map_map]
    rfl

end

/-- The settings under which lines are left. -/
def tracing : Settings := { options := [("debug_pst_parsing", .bool true)], user := .object [] }

/-- A map with a witness script and a field of no known type. -/
def scriptAndUnknown : Stream := .ofBytes (FieldMap.encode [⟨2, [], [0x51]⟩, ⟨7, [], [1]⟩])

/-- Both of its fields are read, and only the first is stored. -/
theorem exists_populate_scriptAndUnknown :
    ∃ stream, populate (.upTo 10000 37) ({} : Output Bytes) scriptAndUnknown =
      (.error (.unknownType 7),
        { state := { witnessScript := some [0x51] }
          stream
          fields := [⟨7, [], [1]⟩, ⟨2, [], [0x51]⟩] }) := by
  have hK : (10000 : Int) < Value.sizeBound := by decide
  have hV : (37 : Int) < Value.sizeBound := by decide
  let f : Field := ⟨2, [], [0x51]⟩
  let g : Field := ⟨7, [], [1]⟩
  have hf : ∀ f' ∈ [f], f'.Fits 10000 37 :=
    List.forall_mem_singleton.2 ⟨by decide, by decide, by decide⟩
  have hg : g.Fits 10000 37 := ⟨by decide, by decide, by decide⟩
  have hplain : scriptAndUnknown.Plain := Stream.plain_ofBytes _
  have hrest : scriptAndUnknown.rest = FieldMap.body [f] ++ FieldMap.encode [g] := rfl
  have hstored : [f].foldlM store ({} : Output Bytes) = .ok { witnessScript := some [0x51] } := rfl
  obtain ⟨t, ht, hbody⟩ := FieldMap.populate_of_body hK hV hf
    (p := { state := ({} : Output Bytes), stream := scriptAndUnknown }) hplain hrest hstored
  have hnext : t.rest = g.encode ++ [Field.separator] := ht.rest_of_append hrest
  obtain ⟨u, hu, -⟩ := (Field.reads_read hK hV).complete (a := some g) (ht.plain hplain)
    ⟨rfl, hg⟩ hnext
  let p : Progress (Output Bytes) :=
    { state := { witnessScript := some [0x51] }, stream := t, fields := [f] }
  have hrefused : store p.state g = .error (.unknownType 7) := rfl
  have hstops : FieldMap.Stops store (.upTo 10000 37) p (.error (.unknownType 7)) _ :=
    .refused hu hrefused
  exact ⟨u, hbody.trans hstops.populate_eq⟩

/-- Both of its fields leave a line, the one that is refused, too. -/
theorem decodeInto_of_scriptAndUnknown :
    let d := decodeInto tracing (.int 37) ({} : Output Bytes) scriptAndUnknown
    let quiet := decodeInto .builtIn (.int 37) ({} : Output Bytes) scriptAndUnknown
    let log : Log := { console := some Log.debug }
    d.outcome = .error (.unknownType 7) ∧ quiet.outcome = .error (.unknownType 7) ∧
      d.progress = quiet.progress ∧ d.progress.state = { witnessScript := some [0x51] } ∧
      d.lines = ["0x02 None 51", "0x07 None 01"] ∧ quiet.lines = [] ∧
      (log.emitLines d.lines).lines =
        [Log.shownLine "0x07 None 01", Log.shownLine "0x02 None 51"] := by
  intro d quiet log
  have hon : tracing.reading (.int 37) = .ok { limits := .upTo 10000 37, debug := true } := rfl
  have hoff : Settings.builtIn.reading (.int 37) =
    .ok { limits := .upTo 10000 37, debug := false } := rfl
  obtain ⟨u, hu⟩ := exists_populate_scriptAndUnknown
  have hd : d.outcome = .error (.unknownType 7) ∧
      d.progress.state = { witnessScript := some [0x51] } ∧
      d.lines = ["0x02 None 51", "0x07 None 01"] := by
    simp only [d, decodeInto, hon, hu, if_true, true_and]
    decide +kernel
  obtain ⟨houtcome, hstate, hlines⟩ := hd
  obtain ⟨⟨hsame, hprogress, hquiet⟩, -, hlog, -⟩ := decodeInto_of_debug (by decide) (by decide)
    hon hoff ({} : Output Bytes) scriptAndUnknown
  refine ⟨houtcome, hsame.symm.trans houtcome, hprogress, hstate, hlines, hquiet, ?_⟩
  have hshown : (log.emitLines d.lines).lines = (d.lines.map Log.shownLine).reverse ++ [] :=
    (hlog log).2.2 Log.Loggers.atStart_initial rfl
  rw [hshown, hlines]
  rfl

end Output

end PartialTx
