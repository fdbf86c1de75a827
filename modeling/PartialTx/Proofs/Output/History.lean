import Mathlib.Logic.Function.Basic
import PartialTx.Output.Build
import PartialTx.Output.Decode
import PartialTx.Proofs.Outcome
import PartialTx.Proofs.Output.Fields

/-! Records over whole runs. A run is a sequence of calls on any number of records, with
whatever arguments. A call that fails leaves its record as it was, save that the fields
stored before a map broke off stay. Every call keeps records well formed, so that they
are at any time. -/

namespace PartialTx

/-- Reading a map keeps what storing a field keeps, however the reading ends. -/
theorem FieldMap.populate_keeps {σ : Type} {store : σ → Field → Except Fault σ} {P : σ → Prop}
    (hstore : ∀ s f t, P s → store s f = .ok t → P t) (limits : Limits) {p : Progress σ}
    (hp : P p.state) : P (populate store limits p).2.state := by
  induction p using loop_induction store limits with
  | stops p q outcome hstops =>
    rw [hstops.populate_eq, ← hstops.state_eq]
    exact hp
  | next p f t r hread hr ih =>
    rw [populate_of_read hread hr]
    exact ih (hstore p.state f r hp hr)

namespace KeyPath

/-- Steps that are whole numbers of 32 bits. -/
def InRange (p : KeyPath) : Prop :=
  ∀ i ∈ p, ∃ n : Int, i.toValue.int? = some n ∧ 0 ≤ n ∧ n ≤ 0xffffffff

theorem inRange (p : KeyPath) : p.InRange := by
  intro i _
  cases i with
  | index n =>
    have hn := n.toNat_lt
    exact ⟨n.toNat, rfl, by omega, by omega⟩
  | flag b => cases b <;> exact ⟨_, rfl, by decide, by decide⟩

end KeyPath

namespace Output

variable {σ : Type} {r r' : Output σ}

/-! ### Single calls -/

theorem wellFormed_empty : ({} : Output σ).WellFormed :=
  ⟨Keyed.distinct_nil, Keyed.distinct_nil, nofun⟩

theorem wellFormed_map_iff {τ : Type} {f : σ → τ} : (r.map f).WellFormed ↔ r.WellFormed :=
  ⟨fun h => ⟨h.keyOrigins_distinct, h.tapOrigins_distinct, h.internalKey_xOnly⟩,
    fun h => ⟨h.keyOrigins_distinct, h.tapOrigins_distinct, h.internalKey_xOnly⟩⟩

namespace WellFormed

theorem addKeyOrigin {o : KeyOrigin} (h : r.WellFormed) (ha : r.addKeyOrigin o = .ok r') :
    r'.WellFormed := by
  obtain ⟨hnew, rfl⟩ := addKeyOrigin_eq_ok_iff.1 ha
  exact ⟨Keyed.distinct_append_singleton.2 ⟨h.keyOrigins_distinct, hnew⟩, h.tapOrigins_distinct,
    h.internalKey_xOnly⟩

theorem addTapOrigin {o : TapOrigin} (h : r.WellFormed) (ha : r.addTapOrigin o = .ok r') :
    r'.WellFormed := by
  obtain ⟨hnew, rfl⟩ := addTapOrigin_eq_ok_iff.1 ha
  exact ⟨h.keyOrigins_distinct, Keyed.distinct_append_singleton.2 ⟨h.tapOrigins_distinct, hnew⟩,
    h.internalKey_xOnly⟩

theorem setInternalKey {key : Bytes} (h : r.WellFormed) (hk : Key.isXOnly key) :
    { r with tapInternalKey := some key }.WellFormed where
  keyOrigins_distinct := h.keyOrigins_distinct
  tapOrigins_distinct := h.tapOrigins_distinct
  internalKey_xOnly := fun _ heq => Option.some.inj heq ▸ hk

/-- Scripts and trees do not matter. -/
theorem setScripts (h : r.WellFormed) (redeemScript witnessScript tapTree : Option σ) :
    { r with redeemScript, witnessScript, tapTree }.WellFormed :=
  ⟨h.keyOrigins_distinct, h.tapOrigins_distinct, h.internalKey_xOnly⟩

theorem combine {other : Output σ} (h : r.WellFormed) (ho : other.WellFormed) :
    (r.combine other).WellFormed where
  keyOrigins_distinct := h.keyOrigins_distinct.override _
  tapOrigins_distinct := h.tapOrigins_distinct.override _
  internalKey_xOnly := fun key heq => by
    rcases hk : other.tapInternalKey with _ | theirs
    · rw [Output.combine, hk] at heq
      exact h.internalKey_xOnly key heq
    · rw [Output.combine, hk] at heq
      exact Option.some.inj heq ▸ ho.internalKey_xOnly theirs hk

variable {scriptOf : Value → Except Fault (Option σ)}

theorem storeValuesWith {code key value : Value} (h : r.WellFormed)
    (hs : r.storeValuesWith scriptOf code key value = .ok r') : r'.WellFormed := by
  unfold Output.storeValuesWith at hs
  obtain ⟨type, -, hs⟩ := bind_eq_ok_iff.1 hs
  cases type with
  | redeemScript | witnessScript | tapTree =>
    obtain ⟨-, -, hs⟩ := bind_eq_ok_iff.1 hs
    obtain ⟨script, -, hs⟩ := bind_eq_ok_iff.1 hs
    cases hs
    exact h.setScripts ..
  | tapInternalKey =>
    obtain ⟨-, -, hs⟩ := bind_eq_ok_iff.1 hs
    obtain ⟨hk, hs⟩ := guarded_eq_ok_iff.1 hs
    cases hs
    obtain ⟨bs, hbs, hx⟩ := (Option.any_eq_true _ _).1 hk
    rw [hbs]
    exact h.setInternalKey hx
  | keyOrigin =>
    obtain ⟨-, hs⟩ := guarded_eq_ok_iff.1 hs
    obtain ⟨o, -, hs⟩ := bind_eq_ok_iff.1 hs
    exact h.addKeyOrigin hs
  | tapKeyOrigin =>
    obtain ⟨-, hs⟩ := guarded_eq_ok_iff.1 hs
    obtain ⟨o, -, hs⟩ := bind_eq_ok_iff.1 hs
    exact h.addTapOrigin hs

theorem store [Script σ] {f : Field} (h : r.WellFormed) (hs : r.store f = .ok r') :
    r'.WellFormed := by
  have hkeeps : Script.KeepsBytes fun v => .ok (v.bytes?.map (Script.ofBytes (σ := σ))) :=
    fun _ => rfl
  exact h.storeValuesWith ((storeValuesWith_bytes hkeeps r f).trans hs)

theorem addAll {keyOrigins : List KeyOrigin} {tapOrigins : List TapOrigin} (h : r.WellFormed)
    (ha : keyOrigins.foldlM Output.addKeyOrigin r >>= tapOrigins.foldlM Output.addTapOrigin =
      .ok r') : r'.WellFormed := by
  obtain ⟨r₁, hr₁, hr'⟩ := bind_eq_ok_iff.1 ha
  have h₁ := foldlM_keeps (fun _ _ _ hs => hs.addKeyOrigin) h hr₁
  exact foldlM_keeps (fun _ _ _ hs => hs.addTapOrigin) h₁ hr'

theorem ofParts {redeemScript witnessScript : Option σ} {tapInternalKey : Option Bytes}
    {tapTree : Option σ} {keyOrigins : List KeyOrigin} {tapOrigins : List TapOrigin}
    (h : Output.ofParts redeemScript witnessScript tapInternalKey tapTree keyOrigins tapOrigins =
      .ok r) : r.WellFormed := by
  have hstart (hk : ∀ key, tapInternalKey = some key → Key.isXOnly key) :
      (Output.mk redeemScript witnessScript [] tapInternalKey tapTree []).WellFormed :=
    ⟨Keyed.distinct_nil, Keyed.distinct_nil, hk⟩
  unfold Output.ofParts at h
  rcases tapInternalKey with _ | key
  · exact (hstart nofun).addAll h
  · dsimp only at h
    by_cases hk : Key.isXOnly key
    · rw [hk] at h
      exact (hstart fun _ heq => Option.some.inj heq ▸ hk).addAll h
    · rw [Bool.eq_false_iff.2 hk] at h
      cases h

theorem ofArgumentsWith {args : Arguments}
    (h : Output.ofArgumentsWith scriptOf args = .ok r) : r.WellFormed := by
  unfold Output.ofArgumentsWith at h
  obtain ⟨keyOrigins, -, h⟩ := bind_eq_ok_iff.1 h
  obtain ⟨tapOrigins, -, h⟩ := bind_eq_ok_iff.1 h
  obtain ⟨-, -, h⟩ := bind_eq_ok_iff.1 h
  dsimp only at h
  split at h
  next =>
    obtain ⟨shown, -, h⟩ := bind_eq_ok_iff.1 h
    cases h
  next =>
    obtain ⟨r₀, hr₀, h⟩ := bind_eq_ok_iff.1 h
    obtain ⟨redeemScript, -, h⟩ := bind_eq_ok_iff.1 h
    obtain ⟨witnessScript, -, h⟩ := bind_eq_ok_iff.1 h
    obtain ⟨tapTree, -, h⟩ := bind_eq_ok_iff.1 h
    cases h
    exact (ofParts hr₀).setScripts ..

/-- Reading a map keeps a record well formed, also where it breaks off. -/
theorem decodeInto [Script σ] (s : Settings) (maxValue : Value) (h : r.WellFormed)
    (stream : Stream) : (Output.decodeInto s maxValue r stream).progress.state.WellFormed := by
  unfold Output.decodeInto
  split
  next => exact h
  next reading _ =>
    exact FieldMap.populate_keeps (P := fun r : Output σ => r.WellFormed)
      (fun _ _ _ hr hs => hr.store hs) reading.limits h

theorem decode {s : Settings} {maxValue raw : Value} {r : Output Bytes}
    (h : (Output.decode s maxValue raw).1 = .ok r) : r.WellFormed := by
  unfold Output.decode at h
  split at h
  next => cases h
  next bytes _ =>
    have hread := decodeInto s maxValue wellFormed_empty (r := ({} : Output Bytes)) (.ofBytes bytes)
    dsimp only at h
    unfold complete at h
    split at h
    next => cases h
    next p hp =>
      obtain ⟨-, rfl⟩ := Prod.mk.inj hp
      split at h
      next =>
        cases h
        exact hread
      next => cases h

end WellFormed

/-- Entries with distinct keys can be added one after another, wherever they are kept. -/
theorem foldlM_of_distinct {α : Type} [Keyed α] {add : Output σ → α → Except Fault (Output σ)}
    (put : List α → Output σ)
    (hadd : ∀ done e, (∀ x ∈ done, Keyed.key x ≠ Keyed.key e) →
      add (put done) e = .ok (put (done ++ [e])))
    {d es : List α} (h : Keyed.Distinct (d ++ es)) :
    es.foldlM add (put d) = .ok (put (d ++ es)) := by
  induction es generalizing d with
  | nil =>
    rw [List.append_nil]
    rfl
  | cons e es ih =>
    rw [show d ++ e :: es = d ++ [e] ++ es from List.append_cons ..] at h ⊢
    have hnew := (Keyed.distinct_append_singleton.1 h.of_append).2
    rw [List.foldlM_cons, hadd d e hnew]
    exact ih h

/-- A well-formed record can be built from its parts. -/
theorem WellFormed.ofParts_eq (h : r.WellFormed) :
    Output.ofParts r.redeemScript r.witnessScript r.tapInternalKey r.tapTree r.keyOrigins
      r.tapOrigins = .ok r := by
  obtain ⟨redeemScript, witnessScript, keyOrigins, tapInternalKey, tapTree, tapOrigins⟩ := r
  have hkeys := foldlM_of_distinct
    (fun ks : List KeyOrigin => Output.mk redeemScript witnessScript ks tapInternalKey tapTree [])
    (fun _ _ hnew => addKeyOrigin_eq_ok_iff.2 ⟨hnew, rfl⟩) (d := []) h.keyOrigins_distinct
  have htaps := foldlM_of_distinct
    (Output.mk redeemScript witnessScript keyOrigins tapInternalKey tapTree)
    (fun _ _ hnew => addTapOrigin_eq_ok_iff.2 ⟨hnew, rfl⟩) (d := []) h.tapOrigins_distinct
  have hadded : (keyOrigins.foldlM Output.addKeyOrigin
      (Output.mk redeemScript witnessScript [] tapInternalKey tapTree []) >>=
        tapOrigins.foldlM Output.addTapOrigin) =
      .ok (Output.mk redeemScript witnessScript keyOrigins tapInternalKey tapTree tapOrigins) := by
    rw [hkeys]
    exact htaps
  unfold Output.ofParts
  rcases tapInternalKey with _ | key
  · exact hadded
  · dsimp only
    rw [h.internalKey_xOnly key rfl]
    exact hadded

/-! ### Runs -/

/-- Records by number. -/
abbrev Bank (σ : Type) := Nat → Output σ

/-- A call on a record. Building and decoding put a new record in its place, reading a map off
a stream too unless it goes into the record; looking is any encoding, view or question. -/
inductive Call (σ : Type)
  | build (redeemScript witnessScript : Option σ) (tapInternalKey : Option Bytes)
      (tapTree : Option σ) (keyOrigins : List KeyOrigin) (tapOrigins : List TapOrigin)
  | buildWith (args : Arguments)
  | decode (s : Settings) (maxValue raw : Value)
  | read (s : Settings) (maxValue : Value) (stream : Stream)
  | readInto (s : Settings) (maxValue : Value) (stream : Stream)
  | store (code key value : Value)
  | addKeyOrigin (o : KeyOrigin)
  | addTapOrigin (o : TapOrigin)
  | combine (other : Nat)
  | look

/-- The outcome of a call that leaves the record alone if it fails. -/
def orElse (r : Output σ) : Except Fault (Output σ) → Output σ
  | .ok r' => r'
  | .error _ => r

theorem WellFormed.orElse {x : Except Fault (Output σ)} (h : r.WellFormed)
    (hx : ∀ r', x = .ok r' → r'.WellFormed) : (r.orElse x).WellFormed := by
  rcases x with fault | r'
  · exact h
  · exact hx r' rfl

section
variable [Script σ] (scriptOf : Value → Except Fault (Option σ))

/-- What becomes of a record by a call, with the records of a bank at hand. -/
def Call.on (bank : Bank σ) (r : Output σ) : Call σ → Output σ
  | .build redeemScript witnessScript tapInternalKey tapTree keyOrigins tapOrigins =>
    r.orElse (ofParts redeemScript witnessScript tapInternalKey tapTree keyOrigins tapOrigins)
  | .buildWith args => r.orElse (ofArgumentsWith scriptOf args)
  | .decode s maxValue raw =>
    r.orElse ((Output.decode s maxValue raw).1.map (Output.map Script.ofBytes))
  | .read s maxValue stream =>
    let decoded := decodeInto s maxValue {} stream
    r.orElse (decoded.outcome.map fun _ => decoded.progress.state)
  | .readInto s maxValue stream => (decodeInto s maxValue r stream).progress.state
  | .store code key value => r.orElse (r.storeValuesWith scriptOf code key value)
  | .addKeyOrigin o => r.orElse (r.addKeyOrigin o)
  | .addTapOrigin o => r.orElse (r.addTapOrigin o)
  | .combine other => r.combine (bank other)
  | .look => r

/-- A call on the record with a number. -/
def step (bank : Bank σ) (op : Nat × Call σ) : Bank σ :=
  Function.update bank op.1 (op.2.on scriptOf bank (bank op.1))

/-- Calls one after another on records that are empty at first. -/
def run (ops : List (Nat × Call σ)) : Bank σ := ops.foldl (step scriptOf) fun _ => {}

/-- A record that some run comes to. -/
def Reachable (r : Output σ) : Prop := ∃ ops i, run scriptOf ops i = r

variable {bank : Bank σ}

theorem Call.on_wellFormed (hbank : ∀ i, (bank i).WellFormed) (h : r.WellFormed) (c : Call σ) :
    (c.on scriptOf bank r).WellFormed := by
  cases c with
  | build => exact h.orElse fun _ => .ofParts
  | buildWith => exact h.orElse fun _ => .ofArgumentsWith
  | decode s maxValue raw =>
    refine h.orElse fun r' hr' => ?_
    rcases hd : (Output.decode s maxValue raw).1 with fault | d <;> rw [hd] at hr'
    · cases hr'
    · cases hr'
      exact wellFormed_map_iff.2 (.decode hd)
  | read s maxValue stream =>
    refine h.orElse fun r' hr' => ?_
    rcases hd : (decodeInto s maxValue ({} : Output σ) stream).outcome with fault | _ <;>
      rw [hd] at hr'
    · cases hr'
    · cases hr'
      exact wellFormed_empty.decodeInto s maxValue stream
  | readInto s maxValue stream => exact h.decodeInto s maxValue stream
  | store => exact h.orElse fun _ => h.storeValuesWith
  | addKeyOrigin => exact h.orElse fun _ => h.addKeyOrigin
  | addTapOrigin => exact h.orElse fun _ => h.addTapOrigin
  | combine other => exact h.combine (hbank other)
  | look => exact h

theorem step_wellFormed (hbank : ∀ i, (bank i).WellFormed) (op : Nat × Call σ) :
    ∀ i, (step scriptOf bank op i).WellFormed := by
  intro i
  by_cases hi : i = op.1
  · rw [hi, step, Function.update_self]
    exact op.2.on_wellFormed scriptOf hbank (hbank op.1)
  · rw [step, Function.update_of_ne hi]
    exact hbank i

theorem foldl_step_wellFormed (ops : List (Nat × Call σ)) (hbank : ∀ i, (bank i).WellFormed) :
    ∀ i, (ops.foldl (step scriptOf) bank i).WellFormed := by
  induction ops generalizing bank with
  | nil => exact hbank
  | cons op ops ih => exact ih (step_wellFormed scriptOf hbank op)

theorem run_wellFormed (ops : List (Nat × Call σ)) (i : Nat) :
    (run scriptOf ops i).WellFormed :=
  foldl_step_wellFormed scriptOf ops (fun _ => wellFormed_empty) i

/-- Runs come to the well-formed records and to no others. -/
theorem reachable_iff : Reachable scriptOf r ↔ r.WellFormed := by
  constructor
  · rintro ⟨ops, i, rfl⟩
    exact run_wellFormed scriptOf ops i
  · -- one call of the constructor is enough
    intro h
    refine ⟨[(0, .build r.redeemScript r.witnessScript r.tapInternalKey r.tapTree r.keyOrigins
      r.tapOrigins)], 0, ?_⟩
    rw [run, List.foldl_cons, List.foldl_nil, step, Function.update_self, Call.on, h.ofParts_eq]
    rfl

end

/-! ### What holds at any time -/

/-- Keys that are told apart and have the right form, and origins made of parts that do. -/
structure Valid (r : Output σ) : Prop where
  keys_distinct : (r.keyOrigins.map KeyOrigin.key).Nodup
  tapKeys_distinct : (r.tapOrigins.map TapOrigin.key).Nodup
  internalKey : ∀ key, r.tapInternalKey = some key → key.length = 32
  keyOrigins : ∀ o ∈ r.keyOrigins, o.key.length = 33 ∧
    (o.key.head? = some 2 ∨ o.key.head? = some 3) ∧ o.fingerprint.length = 4 ∧ o.path.InRange
  tapOrigins : ∀ o ∈ r.tapOrigins, o.key.length = 32 ∧ o.fingerprint.length = 4 ∧
    o.path.InRange ∧ ∀ h ∈ o.leafHashes, h.length = 32

theorem WellFormed.valid (h : r.WellFormed) : r.Valid where
  keys_distinct := h.keyOrigins_distinct
  tapKeys_distinct := h.tapOrigins_distinct
  internalKey := fun key hkey => Key.isXOnly_iff.1 (h.internalKey_xOnly key hkey)
  keyOrigins := fun o _ =>
    have ⟨hlen, hhead⟩ := Key.isCompressed_iff.1 o.key_compressed
    ⟨hlen, hhead, o.length_fingerprint, o.path.inRange⟩
  tapOrigins := fun o _ =>
    ⟨Key.isXOnly_iff.1 o.key_xOnly, o.length_fingerprint, o.path.inRange, o.length_leafHash⟩

/-- At any time in any run every record is valid, whatever stands as a script in it. -/
theorem valid_of_run [Script σ] (scriptOf : Value → Except Fault (Option σ))
    (ops : List (Nat × Call σ)) (i : Nat) : (run scriptOf ops i).Valid :=
  (run_wellFormed scriptOf ops i).valid

end Output

end PartialTx
