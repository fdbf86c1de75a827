import PartialTx.Proofs.FieldMap.Checked
import PartialTx.Proofs.Origin.Unpacking
import PartialTx.Proofs.Output.Grammar

/-! The faults of decoding. What is checked of a field before an origin is made of it
leaves nothing for the origin to refuse, so that storing a field fails only with faults
that reading a map gives rise to, and so does decoding whole maps, but for limits that
cannot be written. -/

namespace PartialTx

/-- The kinds of faults that only reading a map gives rise to. -/
def Fault.Kind.ofCodec : List Kind :=
  [.unexpectedEnd, .oversized, .duplicate, .invalidKey, .malformedValue, .invalidFormat]

theorem Fault.isCodec_iff {fault : Fault} : fault.isCodec ↔ fault.kind ∈ Kind.ofCodec := by
  unfold isCodec
  cases fault.kind <;> decide

/-! ### Origins in fields -/

namespace Origin

theorem codecOnly_unpack (packed : Bytes) : CodecOnly (unpack packed) := fun fault h => by
  show fault.isCodec
  rw [Fault.isCodec, kind_of_unpack_error h]
  rfl

theorem codecOnly_unpackTap (packed : Bytes) : CodecOnly (unpackTap packed) := fun fault h => by
  show fault.isCodec
  rw [Fault.isCodec, kind_of_unpackTap_error h]
  rfl

end Origin

theorem KeyOrigin.codecOnly_ofField {key : Bytes} (hk : Key.isCompressed key) (value : Bytes) :
    CodecOnly (ofField key value) := by
  refine (Origin.codecOnly_unpack value).bind fun (fingerprint, path) hu => ?_
  obtain ⟨hf, -⟩ := Origin.unpack_eq_ok_iff.1 hu
  simp only [ofParts, hk, hf, dite_true, Except.map]
  exact .ok _

theorem TapOrigin.codecOnly_ofField {key : Bytes} (hk : Key.isXOnly key) (value : Bytes) :
    CodecOnly (ofField key value) := by
  refine (Origin.codecOnly_unpackTap value).bind fun (leafHashes, fingerprint, path) hu => ?_
  obtain ⟨hparts, -⟩ := Origin.unpackTap_eq_ok_iff.1 hu
  simp only [ofParts_eq_ok _ hk hparts]
  exact .ok _

namespace Output

section
variable {σ : Type}

/-! ### Storing -/

theorem codecOnly_checkSingle {α : Type} (type : FieldType) (old : Option α) (hasKey : Bool) :
    CodecOnly (checkSingle type old hasKey) :=
  .ite (fun _ => .error rfl) fun _ => .ite (fun _ => .error rfl) fun _ => .ok ()

theorem codecOnly_addKeyOrigin (r : Output σ) (o : KeyOrigin) : CodecOnly (r.addKeyOrigin o) := by
  unfold addKeyOrigin
  split
  · exact .ok _
  · exact .error rfl

theorem codecOnly_addTapOrigin (r : Output σ) (o : TapOrigin) : CodecOnly (r.addTapOrigin o) := by
  unfold addTapOrigin
  split
  · exact .ok _
  · exact .error rfl

theorem codecOnly_store [Script σ] (r : Output σ) (f : Field) : CodecOnly (r.store f) := by
  unfold store
  rcases FieldType.ofCode? f.code with _ | type
  · exact .error rfl
  · cases type with
    | redeemScript | witnessScript | tapTree =>
      exact (codecOnly_checkSingle _ _ _).bind fun _ _ => .ok _
    | tapInternalKey =>
      exact (codecOnly_checkSingle _ _ _).bind fun _ _ => .ite (fun _ => .ok _) fun _ => .error rfl
    | keyOrigin =>
      exact .ite (fun hk => (KeyOrigin.codecOnly_ofField hk _).bind fun o _ =>
        codecOnly_addKeyOrigin r o) fun _ => .error rfl
    | tapKeyOrigin =>
      exact .ite (fun hk => (TapOrigin.codecOnly_ofField hk _).bind fun o _ =>
        codecOnly_addTapOrigin r o) fun _ => .error rfl

/-! ### Decoding -/

theorem failsOnly_complete {own : Fault → Prop} (hown : ∀ fault : Fault, fault.isCodec → own fault)
    {reading : Except Fault Unit × Progress (Output Bytes)} (h : FailsOnly own reading.1) :
    FailsOnly own (complete reading) := by
  rcases reading with ⟨fault | _, p⟩
  · exact .error (h fault rfl)
  · exact .ite (fun _ => .ok _) fun _ => .error (hown _ rfl)

variable [Script σ] {s : Settings} {maxValue : Value} {K V : Int}

/-- Under limits that are whole numbers, decoding succeeds or fails with one of six kinds of
faults, unless a size is above a limit that has no numeral, and so cannot be told: any byte
string, and any open stream whose reads do not fail by themselves and from which a record is
filled that may hold anything. Limits that have numerals leave the six kinds only. -/
theorem kind_of_decode_error (hK : K < Value.sizeBound) (hV : V < Value.sizeBound)
    (hs : s.Allows maxValue K V) :
    (∀ (raw : Bytes) fault, (decode s maxValue (.bytes raw)).1 = .error fault →
      fault.kind ∈ Fault.Kind.ofCodec ∨ fault.kind = .badValue ∧ Untold K V fault) ∧
    (∀ (r : Output σ) (stream : Stream) fault, stream.Responsive →
      (decodeInto s maxValue r stream).outcome = .error fault →
      fault.kind ∈ Fault.Kind.ofCodec ∨ fault.kind = .badValue ∧ Untold K V fault) ∧
    (Text.hasNumeral K → Text.hasNumeral V →
      (∀ (raw : Bytes) fault, (decode s maxValue (.bytes raw)).1 = .error fault →
        fault.kind ∈ Fault.Kind.ofCodec) ∧
      ∀ (r : Output σ) (stream : Stream) fault, stream.Responsive →
        (decodeInto s maxValue r stream).outcome = .error fault →
        fault.kind ∈ Fault.Kind.ofCodec) := by
  have hdecode (raw : Bytes) : FailsOnly (Field.Faulty K V) (decode s maxValue (.bytes raw)).1 := by
    rw [decode_of_allows hs]
    exact failsOnly_complete (fun _ => .inl)
      (FieldMap.failsOnly_populate hK hV codecOnly_store (Stream.plain_ofBytes raw).responsive)
  have hinto (r : Output σ) (stream : Stream) (hstream : stream.Responsive) :
      FailsOnly (Field.Faulty K V) (decodeInto s maxValue r stream).outcome := by
    rw [(decodeInto_of_allows hs r stream).1]
    exact FieldMap.failsOnly_populate hK hV codecOnly_store hstream
  refine ⟨fun raw fault h => (hdecode raw fault h).imp Fault.isCodec_iff.1 id,
    fun r stream fault hstream h => (hinto r stream hstream fault h).imp Fault.isCodec_iff.1 id,
    fun hnumK hnumV => ?_⟩
  have htold {fault : Fault} (h : Field.Faulty K V fault) : fault.kind ∈ Fault.Kind.ofCodec :=
    Fault.isCodec_iff.1 (h.resolve_right fun huntold => not_untold hnumK hnumV huntold.2)
  exact ⟨fun raw fault h => htold (hdecode raw fault h),
    fun r stream fault hstream h => htold (hinto r stream hstream fault h)⟩

end

/-- Under a negative limit a map with a field is refused in one of these ways. -/
theorem kind_of_decode_unorderedFields :
    ∃ fault, (decode .builtIn (.int (-1)) (.bytes (FieldMap.encode unorderedFields))).1 =
        .error fault ∧ fault.kind ∈ Fault.Kind.ofCodec := by
  have hK : (10000 : Int) < Value.sizeBound := by decide
  have hV : (-1 : Int) < Value.sizeBound := by decide
  rcases hr : (decode .builtIn (.int (-1)) (.bytes (FieldMap.encode unorderedFields))).1 with
    fault | r
  · obtain ⟨-, -, hkinds⟩ := kind_of_decode_error (σ := Bytes) hK hV allows_builtIn
    exact ⟨fault, rfl, (hkinds (by decide) (by decide)).1 _ fault hr⟩
  · rw [decode_of_allows allows_builtIn] at hr
    obtain ⟨fs, heq, hfits, -⟩ := (ofBytes_eq_ok_iff hK hV).1 hr
    rcases fs with _ | ⟨f, fs⟩
    · exact absurd (congrArg List.head? heq) (by decide)
    · have hle := (hfits f List.mem_cons_self).value_le
      omega

/-- Under a negative limit without a numeral it is refused in none of them. -/
theorem kind_of_decode_emptyScript :
    unwritable < Value.sizeBound ∧ ∃ fault,
      (decode .builtIn (.int unwritable) (.bytes emptyScript)).1 = .error fault ∧
      fault.kind = .badValue ∧ fault.kind ∉ Fault.Kind.ofCodec := by
  refine ⟨unwritable_lt_sizeBound, _, decode_emptyScript, untold_emptyScript.kind_eq, ?_⟩
  rw [untold_emptyScript.kind_eq]
  decide

end Output

end PartialTx
