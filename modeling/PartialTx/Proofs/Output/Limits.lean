import PartialTx.Proofs.FieldMap.Limits
import PartialTx.Proofs.Output.Grammar

/-! Decoding under higher limits. A limit does nothing but refuse: what is accepted under it is
accepted under a higher one and is the same record, and what is refused for another reason is
refused alike. A refusal tells the limit, if the limit can be written. -/

namespace PartialTx.Output

variable {s s' : Settings} {maxValue maxValue' : Value} {K K' V V' : Int}

theorem ofBytes_eq_or_tooLong (hK : K ≤ K') (hV : V ≤ V') (raw : Bytes) :
    ofBytes (.upTo K V) raw = ofBytes (.upTo K' V') raw ∨
      ∃ fault, ofBytes (.upTo K V) raw = .error fault ∧ TooLong K V fault := by
  let start : Progress (Output Bytes) := { state := {}, stream := .ofBytes raw }
  obtain heq | ⟨fault, hfault, hlong, -⟩ :=
    FieldMap.populate_eq_or_tooLong store hK hV start
  · exact .inl (congrArg complete heq)
  · refine .inr ⟨fault, ?_, hlong⟩
    rcases hp : FieldMap.populate store (.upTo K V) start with ⟨outcome, p⟩
    rw [hp] at hfault
    rw [ofBytes, ofStream, populate, hp, show outcome = .error fault from hfault]
    rfl

/-- Decoding under limits and under limits that are no lower. Under the lower ones it comes to the
same, or a size is above one of them. This holds of the record that a byte string decodes as, and
of any stream that is read into any record, with how far the reading got; where a size is above a
limit, both have read the same fields up to there. So higher limits accept what lower ones do, and
as the same record. A size above a limit is told as oversized, unless the limit has no numeral. -/
theorem decode_of_higher_limits {σ : Type} [Script σ] (hs : s.Allows maxValue K V)
    (hs' : s'.Allows maxValue' K' V') (hK : K ≤ K') (hV : V ≤ V') :
    (∀ raw, (decode s maxValue (.bytes raw)).1 = (decode s' maxValue' (.bytes raw)).1 ∨
      ∃ fault, (decode s maxValue (.bytes raw)).1 = .error fault ∧ TooLong K V fault) ∧
    (∀ (r : Output σ) stream,
      ((decodeInto s maxValue r stream).outcome = (decodeInto s' maxValue' r stream).outcome ∧
        (decodeInto s maxValue r stream).progress = (decodeInto s' maxValue' r stream).progress) ∨
      ∃ fault, (decodeInto s maxValue r stream).outcome = .error fault ∧ TooLong K V fault ∧
        (decodeInto s maxValue r stream).progress.fields <:+
          (decodeInto s' maxValue' r stream).progress.fields) ∧
    (∀ raw r, (decode s maxValue (.bytes raw)).1 = .ok r →
      (decode s' maxValue' (.bytes raw)).1 = .ok r) ∧
    ∀ fault, TooLong K V fault →
      (fault.kind = .oversized ∨ fault.kind = .badValue ∧ Untold K V fault) ∧
      (Text.hasNumeral K → Text.hasNumeral V → fault.kind = .oversized) := by
  refine ⟨fun raw => ?_, fun r stream => ?_, fun raw r hr => ?_, fun fault hlong =>
    ⟨hlong.told, hlong.kind_eq⟩⟩
  · rw [decode_of_allows hs, decode_of_allows hs']
    exact ofBytes_eq_or_tooLong hK hV raw
  · obtain ⟨houtcome, hprogress⟩ := decodeInto_of_allows hs r stream
    obtain ⟨houtcome', hprogress'⟩ := decodeInto_of_allows hs' r stream
    rw [houtcome, hprogress, houtcome', hprogress', populate, populate]
    obtain heq | ⟨fault, hfault, hlong, hfields⟩ := FieldMap.populate_eq_or_tooLong store hK hV
      { state := r, stream }
    · exact .inl ⟨congrArg Prod.fst heq, congrArg Prod.snd heq⟩
    · exact .inr ⟨fault, hfault, hlong, hfields⟩
  · rw [decode_of_allows hs] at hr
    rw [decode_of_allows hs']
    obtain heq | ⟨fault, hfault, -⟩ := ofBytes_eq_or_tooLong hK hV raw
    · exact heq.symm.trans hr
    · rw [hr] at hfault
      cases hfault

/-- A script of two bytes. It is decoded alike under a limit of two and of nine, and refused as too
long under a limit of one. -/
theorem decode_two_bytes_of_limits :
    let raw := FieldMap.encode [⟨1, [], [5, 5]⟩]
    (∃ r, (decode .builtIn (.int 2) (.bytes raw)).1 = .ok r ∧
      (decode .builtIn (.int 9) (.bytes raw)).1 = .ok r) ∧
    ∃ fault, (decode .builtIn (.int 1) (.bytes raw)).1 = .error fault ∧ TooLong 10000 1 fault ∧
      fault.kind = .oversized := by
  intro raw
  have hK : (10000 : Int) < Value.sizeBound := by decide
  have hfits : ∀ f ∈ [(⟨1, [], [5, 5]⟩ : Field)], f.Fits 10000 2 :=
    List.forall_mem_singleton.2 ⟨by decide, by decide, by decide⟩
  have hok : (decode .builtIn (.int 2) (.bytes raw)).1 = .ok { redeemScript := some [5, 5] } := by
    rw [decode_of_allows allows_builtIn]
    exact (ofBytes_eq_ok_iff hK (by decide)).2 ⟨_, rfl, hfits, rfl⟩
  have hlow : ¬ ∃ r, (decode .builtIn (.int 1) (.bytes raw)).1 = .ok r := by
    rintro ⟨r, hr⟩
    rw [decode_of_allows allows_builtIn, ofBytes_eq_ok_iff hK (by decide)] at hr
    obtain ⟨fs, hraw, hfs, -⟩ := hr
    have hfs' : ∀ f ∈ fs, f.Fits 10000 2 := fun f hf =>
      ⟨(hfs f hf).code_ne, (hfs f hf).key_le, Int.le_trans (hfs f hf).value_le (by decide)⟩
    obtain rfl := FieldMap.encode_inj hK (by decide) hfits hfs' hraw
    exact absurd (hfs _ List.mem_cons_self).value_le (by decide)
  obtain ⟨-, -, hhigh, -⟩ := decode_of_higher_limits (σ := Bytes) allows_builtIn
    (allows_builtIn (V := 9)) (Int.le_refl _) (by decide : (2 : Int) ≤ 9)
  obtain ⟨hsame, -, -, htold⟩ := decode_of_higher_limits (σ := Bytes) allows_builtIn
    (allows_builtIn (V := 2)) (Int.le_refl _) (by decide : (1 : Int) ≤ 2)
  refine ⟨⟨_, hok, hhigh raw _ hok⟩, ?_⟩
  obtain heq | ⟨fault, hfault, hlong⟩ := hsame raw
  · exact absurd ⟨_, heq.trans hok⟩ hlow
  · exact ⟨fault, hfault, hlong, (htold fault hlong).2 (by decide) (by decide)⟩

/-- A script of no bytes. It is accepted under a limit of zero, and refused under a limit without
a numeral, though not as oversized. -/
theorem decode_emptyScript_of_limits :
    unwritable ≤ 0 ∧ (0 : Int) < Value.sizeBound ∧
      (∃ r, (decode .builtIn (.int 0) (.bytes emptyScript)).1 = .ok r) ∧
      ∃ fault, (decode .builtIn (.int unwritable) (.bytes emptyScript)).1 = .error fault ∧
        ¬ fault.kind = .oversized := by
  have hfits : ∀ f ∈ [(⟨1, [], []⟩ : Field)], f.Fits 10000 0 :=
    List.forall_mem_singleton.2 ⟨by decide, by decide, by decide⟩
  refine ⟨Int.le_of_lt unwritable_lt_zero, by decide, ⟨{ redeemScript := some [] }, ?_⟩, _,
    decode_emptyScript, ?_⟩
  · rw [decode_of_allows allows_builtIn]
    exact (ofBytes_eq_ok_iff (by decide) (by decide)).2 ⟨_, rfl, hfits, rfl⟩
  · rw [untold_emptyScript.kind_eq]
    decide

end PartialTx.Output
