import PartialTx.FieldMap
import PartialTx.Proofs.Field

/-! Field maps on the wire. Reading a map is a fold: the fields in front of a plain
stream are taken off and stored one after another, up to the separator, and what is
accepted is the written form of the fields that were stored. A map has one list of
fields. -/

namespace PartialTx.FieldMap

open PartialTx.Stream (Reads Plain Advance)

/-- Fields one after another, without a separator. -/
def body (fs : List Field) : Bytes := fs.flatMap Field.encode

theorem encode_eq (fs : List Field) : encode fs = body fs ++ [Field.separator] := by
  have hbody : (fs.flatMap Field.chunks).flatten = body fs := by
    rw [List.flatMap_def, List.flatten_flatten, List.map_map]
    rfl
  rw [encode, chunks, List.flatten_append, hbody]
  rfl

theorem encode_nil : encode [] = [Field.separator] := rfl

theorem encode_append (fs gs : List Field) : encode (fs ++ gs) = body fs ++ encode gs := by
  rw [encode_eq, encode_eq, body, List.flatMap_append, List.append_assoc]
  rfl

theorem encode_cons (f : Field) (fs : List Field) : encode (f :: fs) = f.encode ++ encode fs := by
  rw [← List.singleton_append, encode_append, body, List.flatMap_singleton]

section
variable {σ : Type}

/-- Reading a map goes no further: the separator comes next, or no field can be read, or one that
is not stored. What is stored by then is what is left. -/
inductive Stops (store : σ → Field → Except Fault σ) (limits : Limits) (p : Progress σ) :
    Except Fault Unit → Progress σ → Prop
  | separator {t : Stream} (hread : Stream.run (Field.read limits) p.stream = (.ok none, t)) :
    Stops store limits p (.ok ()) { p with stream := t }
  | unread {fault : Fault} {t : Stream}
      (hread : Stream.run (Field.read limits) p.stream = (.error fault, t)) :
    Stops store limits p (.error fault) { p with stream := t }
  | refused {f : Field} {fault : Fault} {t : Stream}
      (hread : Stream.run (Field.read limits) p.stream = (.ok (some f), t))
      (hstore : store p.state f = .error fault) :
    Stops store limits p (.error fault) { p with stream := t, fields := f :: p.fields }

variable {store : σ → Field → Except Fault σ}

section
variable {limits : Limits} {p q : Progress σ} {outcome : Except Fault Unit}

theorem Stops.state_eq (h : Stops store limits p outcome q) : p.state = q.state := by
  cases h <;> rfl

theorem Stops.populate_eq (h : Stops store limits p outcome q) :
    populate store limits p = (outcome, q) := by
  rw [FieldMap.populate_eq]
  cases h with
  | separator hread | unread hread => simp only [hread]
  | refused hread hstore => simp only [hread, hstore]

/-- What is read next decides where the loop stops, and the limits decide no more than that. -/
theorem Stops.of_run_eq (h : Stops store limits p outcome q) {limits' : Limits}
    (heq : Stream.run (Field.read limits) p.stream = Stream.run (Field.read limits') p.stream) :
    Stops store limits' p outcome q := by
  cases h with
  | separator hread => exact .separator (heq ▸ hread)
  | unread hread => exact .unread (heq ▸ hread)
  | refused hread hstore => exact .refused (heq ▸ hread) hstore

theorem populate_of_read {f : Field} {t : Stream} {state : σ}
    (hread : Stream.run (Field.read limits) p.stream = (.ok (some f), t))
    (hstore : store p.state f = .ok state) : populate store limits p =
      populate store limits { state, stream := t, fields := f :: p.fields } := by
  rw [populate_eq]
  simp only [hread, hstore]

end

/-- What holds where the loop stops, and in a round if it holds in the next one, holds in each. -/
theorem loop_induction (store : σ → Field → Except Fault σ) (limits : Limits)
    {motive : Progress σ → Prop}
    (stops : ∀ p q outcome, Stops store limits p outcome q → motive p)
    (next : ∀ p f t state, Stream.run (Field.read limits) p.stream = (.ok (some f), t) →
      store p.state f = .ok state → motive { state, stream := t, fields := f :: p.fields } →
      motive p)
    (p : Progress σ) : motive p := by
  fun_induction populate store limits p with
  | case1 p fault stream hread => exact stops p _ _ (.unread hread)
  | case2 p stream hread => exact stops p _ _ (.separator hread)
  | case3 p f stream hread fault hstore => exact stops p _ _ (.refused hread hstore)
  | case4 p f stream hread state hstore ih => exact next p f stream state hread hstore ih

/-- Fields that have been read stay the first ones. -/
theorem fields_isSuffix (store : σ → Field → Except Fault σ) (limits : Limits) (p : Progress σ) :
    p.fields <:+ (populate store limits p).2.fields := by
  induction p using loop_induction store limits with
  | stops p q outcome hstops =>
    rw [hstops.populate_eq]
    cases hstops with
    | separator _ | unread _ => exact List.suffix_refl _
    | refused _ _ => exact List.suffix_cons _ _
  | next p f t state hread hstore ih =>
    rw [populate_of_read hread hstore]
    exact (List.suffix_cons f p.fields).trans ih

/-- Fields that cannot all be stored have a first that is refused. -/
theorem exists_refused {fs : List Field} {state : σ} {fault : Fault}
    (h : fs.foldlM store state = .error fault) :
    ∃ gs f hs r, fs = gs ++ f :: hs ∧ gs.foldlM store state = .ok r ∧
      store r f = .error fault := by
  induction fs generalizing state with
  | nil => cases h
  | cons f fs ih =>
    rw [List.foldlM_cons] at h
    rcases hstore : store state f with cause | r₁ <;> rw [hstore] at h
    · cases h
      exact ⟨[], f, fs, state, rfl, rfl, hstore⟩
    · obtain ⟨gs, g, hs, r, rfl, hfold, hg⟩ := ih h
      refine ⟨f :: gs, g, hs, r, rfl, ?_, hg⟩
      rw [List.foldlM_cons, hstore]
      exact hfold

/-- Fields that do not all keep within the limits have a first that does not. -/
theorem exists_not_fits {fs : List Field} {K V : Int} (h : ¬ ∀ f ∈ fs, f.Fits K V) :
    ∃ gs f hs, fs = gs ++ f :: hs ∧ (∀ g ∈ gs, g.Fits K V) ∧ ¬ f.Fits K V := by
  induction fs with
  | nil => exact absurd (List.forall_mem_nil _) h
  | cons f fs ih =>
    by_cases hf : f.Fits K V
    · obtain ⟨gs, g, hs, rfl, hgs, hg⟩ := ih fun hfs => h (List.forall_mem_cons.2 ⟨hf, hfs⟩)
      exact ⟨f :: gs, g, hs, rfl, List.forall_mem_cons.2 ⟨hf, hgs⟩, hg⟩
    · exact ⟨[], f, fs, rfl, List.forall_mem_nil _, hf⟩

variable {K V : Int} (hK : K < Value.sizeBound) (hV : V < Value.sizeBound)
include hK hV

/-- Whatever the stream, reading a map takes fields within the limits off it and stores them in
order, and then stops. -/
theorem exists_stops {p q : Progress σ} {outcome : Except Fault Unit}
    (h : populate store (.upTo K V) p = (outcome, q)) :
    ∃ fs p', (∀ f ∈ fs, f.Fits K V) ∧ fs.foldlM store p.state = .ok p'.state ∧
      p'.fields = fs.reverse ++ p.fields ∧ Advance p.stream p'.stream (body fs) ∧
      Stops store (.upTo K V) p' outcome q := by
  induction p using loop_induction store (.upTo K V) with
  | stops p q' outcome' hstops =>
    obtain ⟨rfl, rfl⟩ := Prod.mk.inj (hstops.populate_eq.symm.trans h)
    exact ⟨[], p, List.forall_mem_nil _, rfl, rfl, .refl _, hstops⟩
  | next p f t r hread hstore ih =>
    rw [populate_of_read hread hstore] at h
    obtain ⟨bs, ⟨rfl, hf⟩, hs⟩ := (Field.reads_read hK hV).sound hread
    obtain ⟨fs, p', hfs, hfold, hfields, hrest, hstops⟩ := ih h
    refine ⟨f :: fs, p', List.forall_mem_cons.2 ⟨hf, hfs⟩, ?_, ?_, hs.trans hrest, hstops⟩
    · rw [List.foldlM_cons, hstore]
      exact hfold
    · rw [hfields, List.reverse_cons, List.append_assoc]
      rfl

/-- An accepted map consists of the fields that were stored, in order. -/
theorem sound_populate {p q : Progress σ}
    (h : populate store (.upTo K V) p = (.ok (), q)) :
    ∃ fs, (∀ f ∈ fs, f.Fits K V) ∧ fs.foldlM store p.state = .ok q.state ∧
      q.fields = fs.reverse ++ p.fields ∧ Advance p.stream q.stream (encode fs) := by
  obtain ⟨fs, p', hfs, hfold, hfields, hadv, hstops⟩ := exists_stops hK hV h
  cases hstops with
  | separator hread =>
    obtain ⟨bs, rfl, hs⟩ := (Field.reads_read hK hV).sound hread
    exact ⟨fs, hfs, hfold, hfields, encode_eq fs ▸ hadv.trans hs⟩

/-- Fields in front of the stream are read and stored one after another. -/
theorem populate_of_body {fs : List Field} (hfs : ∀ f ∈ fs, f.Fits K V) {p : Progress σ}
    (hp : p.stream.Plain) {rest : Bytes} (hrest : p.stream.rest = body fs ++ rest) {r : σ}
    (hr : fs.foldlM store p.state = .ok r) :
    ∃ stream, Advance p.stream stream (body fs) ∧ populate store (.upTo K V) p =
      populate store (.upTo K V) { state := r, stream, fields := fs.reverse ++ p.fields } := by
  induction fs generalizing p with
  | nil =>
    cases hr
    exact ⟨p.stream, .refl _, rfl⟩
  | cons f fs ih =>
    obtain ⟨hf, hfs⟩ := List.forall_mem_cons.1 hfs
    rw [body, List.flatMap_cons, List.append_assoc] at hrest
    obtain ⟨u, hu, hpu⟩ := (Field.reads_read hK hV).complete (a := some f) hp ⟨rfl, hf⟩ hrest
    rw [List.foldlM_cons] at hr
    rcases hstore : store p.state f with fault | r₁
    · rw [hstore] at hr
      cases hr
    · rw [hstore] at hr
      obtain ⟨v, huv, hv⟩ := ih hfs (p := { state := r₁, stream := u, fields := f :: p.fields })
        (hpu.plain hp) (hpu.rest_of_append hrest) hr
      refine ⟨v, hpu.trans huv, ?_⟩
      rw [populate_of_read hu hstore, hv, List.reverse_cons, List.append_assoc]
      rfl

/-- The separator ends the map. -/
theorem populate_of_separator {p : Progress σ} (hp : p.stream.Plain) {rest : Bytes}
    (hrest : p.stream.rest = [Field.separator] ++ rest) :
    ∃ stream, Advance p.stream stream [Field.separator] ∧
      populate store (.upTo K V) p = (.ok (), { p with stream }) := by
  obtain ⟨u, hu, hpu⟩ := (Field.reads_read hK hV).complete (a := none) hp rfl hrest
  exact ⟨u, hpu, (Stops.separator hu).populate_eq⟩

/-- Every map of fields within the limits is accepted if all of them can be stored. -/
theorem complete_populate {fs : List Field} (hfs : ∀ f ∈ fs, f.Fits K V) {p : Progress σ}
    (hp : p.stream.Plain) {rest : Bytes} (hrest : p.stream.rest = encode fs ++ rest) {r : σ}
    (hr : fs.foldlM store p.state = .ok r) :
    ∃ stream, Advance p.stream stream (encode fs) ∧ populate store (.upTo K V) p =
      (.ok (), { state := r, stream, fields := fs.reverse ++ p.fields }) := by
  rw [encode_eq, List.append_assoc] at hrest
  obtain ⟨u, hpu, hu⟩ := populate_of_body hK hV hfs hp hrest hr
  obtain ⟨v, huv, hv⟩ := populate_of_separator hK hV
    (p := { state := r, stream := u, fields := fs.reverse ++ p.fields }) (hpu.plain hp)
    (hpu.rest_of_append hrest)
  exact ⟨v, encode_eq fs ▸ hpu.trans huv, hu.trans hv⟩

/-- A map of fields within the limits is refused like the first field that cannot be stored. -/
theorem populate_of_refused {fs : List Field} (hfs : ∀ f ∈ fs, f.Fits K V) {p : Progress σ}
    (hp : p.stream.Plain) {rest : Bytes} (hrest : p.stream.rest = encode fs ++ rest)
    {fault : Fault} (hr : fs.foldlM store p.state = .error fault) :
    ∃ q, populate store (.upTo K V) p = (.error fault, q) := by
  obtain ⟨gs, f, hs, r, rfl, hfold, hstore⟩ := exists_refused hr
  obtain ⟨hgs, hfs⟩ := List.forall_mem_append.1 hfs
  rw [encode_append, encode_cons, List.append_assoc, List.append_assoc] at hrest
  obtain ⟨u, hpu, hu⟩ := populate_of_body hK hV hgs hp hrest hfold
  obtain ⟨t, ht, -⟩ := (Field.reads_read hK hV).complete (a := some f) (hpu.plain hp)
    ⟨rfl, (List.forall_mem_cons.1 hfs).1⟩ (hpu.rest_of_append hrest)
  have hstops : Stops store (.upTo K V)
      { state := r, stream := u, fields := gs.reverse ++ p.fields } (.error fault) _ :=
    .refused ht hstore
  exact ⟨_, hu.trans hstops.populate_eq⟩

/-- A map with a field beyond the limits is refused at the first such field, if all before
it can be stored. -/
theorem populate_of_not_fits {fs : List Field}
    (hframed : ∀ f ∈ fs, f.Framed) (hfs : ¬ ∀ f ∈ fs, f.Fits K V) {p : Progress σ}
    (hp : p.stream.Plain) {rest : Bytes} (hrest : p.stream.rest = encode fs ++ rest) {r : σ}
    (hr : fs.foldlM store p.state = .ok r) :
    ∃ fault q, populate store (.upTo K V) p = (.error fault, q) ∧ TooLong K V fault := by
  obtain ⟨gs, f, hs, rfl, hgs, hf⟩ := exists_not_fits hfs
  rw [List.foldlM_append] at hr
  rcases hfold : gs.foldlM store p.state with fault | r₁ <;> rw [hfold] at hr
  · cases hr
  · rw [encode_append, encode_cons, List.append_assoc, List.append_assoc] at hrest
    obtain ⟨u, hpu, hu⟩ := populate_of_body hK hV hgs hp hrest hfold
    obtain ⟨fault, t, ht, hlong⟩ := Field.run_read_of_not_fits (hpu.plain hp)
      (hpu.rest_of_append hrest) (hframed f (by simp)) hK hf
    have hstops : Stops store (.upTo K V)
        { state := r₁, stream := u, fields := gs.reverse ++ p.fields } (.error fault) _ :=
      .unread ht
    exact ⟨fault, _, hu.trans hstops.populate_eq, hlong⟩

end

/-- The fields of a map are told by its bytes, whatever follows. -/
theorem encode_append_inj {fs gs : List Field} (hfs : ∀ f ∈ fs, f.Encodable)
    (hgs : ∀ g ∈ gs, g.Encodable) {rest rest' : Bytes}
    (h : encode fs ++ rest = encode gs ++ rest') : fs = gs ∧ rest = rest' := by
  induction fs generalizing gs with
  | nil =>
    cases gs with
    | nil => exact ⟨rfl, List.append_cancel_left h⟩
    | cons g gs =>
      rw [encode_nil, encode_cons, Field.encode_eq] at h
      exact absurd (List.cons.inj h).1.symm (List.forall_mem_cons.1 hgs).1.code_ne
  | cons f fs ih =>
    obtain ⟨hf, hfs⟩ := List.forall_mem_cons.1 hfs
    cases gs with
    | nil =>
      rw [encode_nil, encode_cons, Field.encode_eq] at h
      exact absurd (List.cons.inj h).1 hf.code_ne
    | cons g gs =>
      obtain ⟨hg, hgs'⟩ := List.forall_mem_cons.1 hgs
      rw [encode_cons, encode_cons, List.append_assoc, List.append_assoc] at h
      obtain ⟨hfg, htail⟩ := Field.encode_append_inj hf hg h
      obtain ⟨hfgs, hrest⟩ := ih hfs hgs' htail
      exact ⟨by rw [hfg, hfgs], hrest⟩

theorem encode_inj_of_encodable {fs gs : List Field} (hfs : ∀ f ∈ fs, f.Encodable)
    (hgs : ∀ g ∈ gs, g.Encodable) (h : encode fs = encode gs) : fs = gs :=
  (encode_append_inj hfs hgs (congrArg (· ++ []) h)).1

/-- Under limits a map has one list of fields. -/
theorem encode_inj {K V : Int} (hK : K < Value.sizeBound) (hV : V < Value.sizeBound)
    {fs gs : List Field} (hfs : ∀ f ∈ fs, f.Fits K V) (hgs : ∀ g ∈ gs, g.Fits K V)
    (h : encode fs = encode gs) : fs = gs :=
  encode_inj_of_encodable (fun f hf => (hfs f hf).encodable hK hV)
    (fun g hg => (hgs g hg).encodable hK hV) h

end PartialTx.FieldMap
