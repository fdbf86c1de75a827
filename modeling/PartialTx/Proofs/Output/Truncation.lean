import PartialTx.Proofs.FieldMap.Checked
import PartialTx.Proofs.Output.Grammar

/-! Decoding from a stream that is cut off or goes on. Decoding looks at nothing behind the
place where it stops, be it the separator or a fault, so that other bytes there change
nothing; and on a stream cut off before that place it finds that the stream has ended. -/

namespace PartialTx.Output

open PartialTx.Stream (Ended)

section
variable {σ : Type} [Script σ] {s : Settings} {maxValue : Value} {K V : Int}

/-- Decoding under settings comes to what the reading of the map comes to. -/
theorem decodeInto_eq {debug : Bool}
    (hs : s.reading maxValue = .ok { limits := .upTo K V, debug }) (r : Output σ)
    (stream : Stream) :
    decodeInto s maxValue r stream =
      let (result, t) := FieldMap.reading store (.upTo K V) r [] stream
      { outcome := result.1
        progress := { state := result.2.1, stream := t, fields := result.2.2 }
        lines := if debug then result.2.2.reverse.map Field.line else [] } := by
  rw [decodeInto, hs]
  rfl

/-- Decoding that does not break off looks at nothing behind the place where it stops: whatever
follows there, it comes to the same record and stops at the same place. On fewer bytes it breaks
off. -/
theorem decodeInto_of_take (hK : K < Value.sizeBound) (hV : V < Value.sizeBound)
    (hs : s.Allows maxValue K V) (r : Output σ) {raw : Bytes} {d : Decoded σ}
    (hd : decodeInto s maxValue r (.ofBytes raw) = d)
    (hend : ∀ fault, d.outcome = .error fault → fault.kind ≠ .unexpectedEnd) :
    (∀ more : Bytes, ∃ d',
      decodeInto s maxValue r (.ofBytes (raw.take d.progress.stream.position ++ more)) = d' ∧
        d'.outcome = d.outcome ∧ d'.progress.state = d.progress.state ∧ d'.lines = d.lines ∧
        d'.progress.stream.position = d.progress.stream.position) ∧
    ∀ q < d.progress.stream.position, ∃ fault,
      (decodeInto s maxValue r (.ofBytes (raw.take q))).outcome = .error fault ∧
        fault.kind = .unexpectedEnd := by
  obtain ⟨debug, hs⟩ := hs
  simp only [decodeInto_eq hs] at hd ⊢
  rcases hr : FieldMap.reading store (.upTo K V) r [] (.ofBytes raw) with ⟨result, t⟩
  rw [hr] at hd
  subst hd
  have hnot : ¬ Ended result.1 := fun ⟨fault, hfault, hkind⟩ => hend fault hfault hkind
  obtain ⟨hsame, hshort⟩ := (FieldMap.causal_reading hK hV r []).of_take hr hnot
  refine ⟨fun more => ?_, hshort⟩
  obtain ⟨u, hu, hpos⟩ := hsame more
  exact ⟨_, rfl, by rw [hu], by rw [hu], by rw [hu], by rw [hu]; exact hpos⟩

end

/-- A map in front of one byte or another decodes alike, and does not decode where it is cut
off. -/
theorem decodeInto_of_unorderedFields :
    ∃ d, decodeInto .builtIn (.int 37) ({} : Output Bytes)
        (.ofBytes (FieldMap.encode unorderedFields ++ [1])) = d ∧ d.outcome = .ok () ∧
      (∃ d', decodeInto .builtIn (.int 37) ({} : Output Bytes)
          (.ofBytes (FieldMap.encode unorderedFields ++ [2, 3])) = d' ∧ d'.outcome = .ok () ∧
        d'.progress.state = d.progress.state) ∧
      ∃ fault, (decodeInto .builtIn (.int 37) ({} : Output Bytes)
          (.ofBytes ((FieldMap.encode unorderedFields).take 50))).outcome = .error fault ∧
        fault.kind = .unexpectedEnd := by
  have hK : (10000 : Int) < Value.sizeBound := by decide
  have hV : (37 : Int) < Value.sizeBound := by decide
  obtain ⟨r, hfold, -⟩ := admissible_unorderedFields.exists_extends hV
  let stream : Stream := .ofBytes (FieldMap.encode unorderedFields ++ [1])
  let start : Progress (Output Bytes) := { state := {}, stream }
  obtain ⟨t, hadv, hp⟩ := FieldMap.complete_populate hK hV admissible_unorderedFields.fits
    (p := start) (Stream.plain_ofBytes _) (Stream.rest_ofBytes _) hfold
  obtain ⟨houtcome, hprogress⟩ := decodeInto_of_allows allows_builtIn ({} : Output Bytes) stream
  rw [populate, hp] at houtcome hprogress
  have hpos : t.position = (FieldMap.encode unorderedFields).length :=
    hadv.position_eq.trans (Nat.zero_add _)
  have hlen : 50 < (FieldMap.encode unorderedFields).length := by decide +kernel
  obtain ⟨hsame, hshort⟩ := decodeInto_of_take hK hV allows_builtIn {} rfl
    (fun fault hfault => by rw [houtcome] at hfault; cases hfault)
  rw [hprogress] at hsame hshort
  refine ⟨_, rfl, houtcome, ?_, ?_⟩
  · obtain ⟨d', hd', hout, hstate, -⟩ := hsame [2, 3]
    rw [hpos, List.take_left] at hd'
    exact ⟨d', hd', hout.trans houtcome, hstate.trans (by rw [hprogress])⟩
  · have hcut := hshort 50 (hpos ▸ hlen)
    rwa [List.take_append_of_le_length (Nat.le_of_lt hlen)] at hcut

end PartialTx.Output
