import PartialTx.Proofs.FieldMap
import PartialTx.Proofs.Stream.Checked

/-! The reads made for a field map. Each field is read by checked reads, none of them for
more bytes than a limit allows or a size needs. So the reading of a map is settled by the
bytes it takes, as long as each field is stored by what it holds alone, and it fails only
with faults of its own if the owner of the map does. A limit that cannot be written is
told by no fault. -/

namespace PartialTx

open PartialTx.Stream (Checked Causal SettledAt Ended)

theorem CompactSize.checked_readOr {own : Fault → Prop}
    (hown : ∀ fault : Fault, fault.isCodec → own fault) {bound : Nat} (hb : 8 ≤ bound)
    {missing : Fault} (hm : missing.kind = .unexpectedEnd) :
    Checked own bound (readOr missing) := by
  rw [readOr_eq]
  refine .head hm fun marker => ?_
  rcases hp : payload? marker with _ | ⟨width, least⟩
  · exact .pure _
  · exact .bind (.readExactly (Nat.le_trans (width_le hp) hb)) fun word =>
      .ite (fun _ => .throw (hown _ rfl)) fun _ => .pure _

namespace Field

/-- A fault that reading a field under limits gives rise to: one of the codec, or a size above
a limit that cannot be told. -/
def Faulty (K V : Int) (fault : Fault) : Prop :=
  fault.isCodec ∨ fault.kind = .badValue ∧ Untold K V fault

theorem faulty_of_tooLong {K V : Int} {fault : Fault} (h : TooLong K V fault) :
    Faulty K V fault := by
  refine h.told.imp (fun hkind => ?_) id
  rw [Fault.isCodec, hkind]
  rfl

theorem faulty_of_unexpectedEnd {K V : Int} {fault : Fault} (h : fault.kind = .unexpectedEnd) :
    Faulty K V fault := by
  refine .inl ?_
  rw [Fault.isCodec, h]
  rfl

/-- The most bytes that are asked for at once under limits: a word of eight, a key or a value. -/
def mostAsked (K V : Int) : Nat := max 8 (max K V).toNat

theorem checked_readSized {K V L : Int} {bound : Nat} (hb : 8 ≤ bound) (hL : L ≤ bound)
    {missing : Fault} {tooLong : Nat → Value → Fault} (hm : missing.kind = .unexpectedEnd)
    (ht : ∀ size : Nat, L < size → TooLong K V (tooLong size (.int L))) :
    Checked (Faulty K V) bound (readSized (.int L) missing tooLong) := by
  rw [readSized_eq]
  refine .bind (CompactSize.checked_readOr (fun _ => .inl) hb hm) fun size => ?_
  rw [readWithin_eq]
  exact .ite (fun hs => .throw (faulty_of_tooLong (ht size hs))) fun hs => .readExactly (by omega)

theorem checked_read (K V : Int) :
    Checked (Faulty K V) (mostAsked K V) (read (.upTo K V)) := by
  have hb : 8 ≤ mostAsked K V := Nat.le_max_left ..
  have hK : K ≤ mostAsked K V := by unfold mostAsked; omega
  have hV : V ≤ mostAsked K V := by unfold mostAsked; omega
  have hkey (code : UInt8) : Checked (Faulty K V) (mostAsked K V) (readKeyOf (.int K) code) :=
    checked_readSized hb hK rfl fun _ => .key
  have hvalue : Checked (Faulty K V) (mostAsked K V) (readValue (.int V)) :=
    checked_readSized hb hV rfl fun _ => .value
  have hhead : Checked (Faulty K V) (mostAsked K V) (readKey (.int K)) :=
    .head rfl fun code => .ite (fun _ => .pure none) fun _ => .bind (hkey code) fun _ => .pure _
  refine .bind hhead fun head => ?_
  rcases head with _ | ⟨code, key⟩
  · exact .pure none
  · exact .bind hvalue fun _ => .pure _

end Field

namespace FieldMap

variable {σ : Type} {store : σ → Field → Except Fault σ} {K V : Int}

theorem mostAsked_lt (hK : K < Value.sizeBound) (hV : V < Value.sizeBound) :
    Field.mostAsked K V < Value.sizeBound := by
  have h8 : 8 < Value.sizeBound := by decide
  unfold Field.mostAsked
  omega

/-- What the reading of a map comes to, apart from the stream. -/
def reading (store : σ → Field → Except Fault σ) (limits : Limits) (state : σ)
    (fields : List Field) (s : Stream) : (Except Fault Unit × σ × List Field) × Stream :=
  let (outcome, q) := populate store limits { state, stream := s, fields }
  ((outcome, q.state, q.fields), q.stream)

theorem reading_eq (store : σ → Field → Except Fault σ) (limits : Limits) (state : σ)
    (fields : List Field) (s : Stream) :
    reading store limits state fields s =
      match Stream.run (Field.read limits) s with
      | (.error fault, t) => ((.error fault, state, fields), t)
      | (.ok none, t) => ((.ok (), state, fields), t)
      | (.ok (some f), t) =>
        match store state f with
        | .error fault => ((.error fault, state, f :: fields), t)
        | .ok r => reading store limits r (f :: fields) t := by
  rw [reading, populate_eq]
  rcases Stream.run (Field.read limits) s with ⟨_ | _ | f, t⟩
  · rfl
  · rfl
  · dsimp only
    rcases store state f with _ | r <;> rfl

theorem ended_reading {limits : Limits} {state : σ} {fields : List Field} {s : Stream}
    (h : Ended (Stream.run (Field.read limits) s).1) :
    Ended (reading store limits state fields s).1.1 := by
  obtain ⟨fault, hfault, hkind⟩ := h
  refine ⟨fault, ?_, hkind⟩
  rw [reading_eq]
  rcases hr : Stream.run (Field.read limits) s with ⟨_ | _, t⟩ <;> rw [hr] at hfault <;>
    cases hfault
  rfl

variable (hK : K < Value.sizeBound) (hV : V < Value.sizeBound)
include hK hV

/-- The reading of a map that does not break off is settled by the bytes it takes. -/
theorem causal_reading (state : σ) (fields : List Field) :
    Causal (reading store (.upTo K V) state fields) fun result => Ended result.1 := by
  have hread := (Field.checked_read K V).causal (mostAsked_lt hK hV)
  suffices h : ∀ p : Progress σ, p.stream.Plain →
      SettledAt (reading store (.upTo K V) p.state p.fields) (fun result => Ended result.1)
        p.stream from
    fun s hs => h { state, stream := s, fields } hs
  intro p hp
  -- the rest of the map is read from where the next field ends
  fun_induction populate store (.upTo K V) p with
  | case1 p fault stream hr =>
    exact (hread p.stream hp).stop hp hr ended_reading fun h => by rw [reading_eq, h]
  | case2 p stream hr =>
    exact (hread p.stream hp).stop hp hr ended_reading fun h => by rw [reading_eq, h]
  | case3 p f stream hr fault hstore =>
    have hstop {s t : Stream} (h : Stream.run (Field.read (.upTo K V)) s = (.ok (some f), t)) :
        reading store (.upTo K V) p.state p.fields s =
          ((.error fault, p.state, f :: p.fields), t) := by
      rw [reading_eq, h]
      simp only [hstore]
    exact (hread p.stream hp).stop hp hr ended_reading hstop
  | case4 p f stream hr r hstore ih =>
    have hnext {s t : Stream} (h : Stream.run (Field.read (.upTo K V)) s = (.ok (some f), t)) :
        reading store (.upTo K V) p.state p.fields s =
          reading store (.upTo K V) r (f :: p.fields) t := by
      rw [reading_eq, h]
      simp only [hstore]
    exact (hread p.stream hp).trans hp hr ih ended_reading hnext

/-- The reading of a map fails only with faults of reading, if storing a field does. -/
theorem failsOnly_populate (hstore : ∀ state f, CodecOnly (store state f)) {p : Progress σ}
    (hp : p.stream.Responsive) :
    FailsOnly (Field.Faulty K V) (populate store (.upTo K V) p).1 := by
  have hread := (Field.checked_read K V).failsBy (fun _ => Field.faulty_of_unexpectedEnd)
    (mostAsked_lt hK hV)
  fun_induction populate store (.upTo K V) p with
  | case1 p fault stream hr =>
    obtain ⟨-, hfault⟩ := hread p.stream hp
    rw [hr] at hfault
    exact .error (hfault fault rfl)
  | case2 p stream hr => exact .ok ()
  | case3 p f stream hr fault hrefused => exact .error (.inl (hstore p.state f fault hrefused))
  | case4 p f stream hr r hr' ih =>
    obtain ⟨hstream, -⟩ := hread p.stream hp
    rw [hr] at hstream
    exact ih hstream

end FieldMap

end PartialTx
