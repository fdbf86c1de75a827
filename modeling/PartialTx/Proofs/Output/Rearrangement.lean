import PartialTx.Proofs.Output.Canonical
import PartialTx.Proofs.Output.Equality

/-! Maps with the same fields in different orders. Whether a map is accepted depends on its
fields and not on their order, though the fields are stored one after another and checked
against those before them; and so does the record, up to the order of its origins, and what
is written of it. -/

namespace PartialTx.Output

open FieldMap (ofType)

variable {fs gs : List Field} {K V : Int}

theorem perm_ofType (hp : fs.Perm gs) (type : FieldType) :
    (ofType type fs).Perm (ofType type gs) :=
  hp.filter _

theorem Admissible.perm (h : Admissible K V fs) (hp : fs.Perm gs) : Admissible K V gs where
  key_le := fun g hg => h.key_le g (hp.mem_iff.2 hg)
  value_le := fun g hg => h.value_le g (hp.mem_iff.2 hg)
  formed := fun g hg => h.formed g (hp.mem_iff.2 hg)
  once := fun type hs => (perm_ofType hp type).length_eq ▸ h.once type hs
  distinct := fun type hs => ((perm_ofType hp type).map Field.key).nodup (h.distinct type hs)

/-- Records that hold the same fields are equal and written alike. -/
theorem Holds.beq_of_perm {r r' : Output Bytes} (hV : V < Value.sizeBound) (h : r.Holds fs)
    (h' : r'.Holds gs) (hadm : Admissible K V fs) (hp : fs.Perm gs) :
    (r == r') = true ∧ r.toBytes = r'.toBytes := by
  have hfields : r.fields = r'.fields := by
    refine FieldMap.eq_of_perm (h.wellFormed hadm).ascending_fields
      (h'.wellFormed (hadm.perm hp)).ascending_fields ?_
    exact (h.perm_fields hadm.formed).trans
      (hp.trans (h'.perm_fields (hadm.perm hp).formed).symm)
  have hlen : ∀ f ∈ r.fields, f.value.length < Bytes.wordCount 8 := fun f hf =>
    value_lt_of_fits hV hadm.fits f ((h.perm_fields hadm.formed).mem_iff.1 hf)
  exact ⟨(beq_iff_fields_eq hlen).2 hfields, by rw [toBytes, toBytes, hfields]⟩

section
variable (hK : K < Value.sizeBound) (hV : V < Value.sizeBound)
include hK hV

/-- A map is accepted exactly if its fields are admissible, and the record then holds them. -/
theorem ofBytes_encode (hfs : ∀ f ∈ fs, f.Encodable) :
    ((∃ r, ofBytes (.upTo K V) (FieldMap.encode fs) = .ok r) ↔ Admissible K V fs) ∧
      ∀ r, ofBytes (.upTo K V) (FieldMap.encode fs) = .ok r → r.Holds fs := by
  have hsound {r : Output Bytes} (hr : ofBytes (.upTo K V) (FieldMap.encode fs) = .ok r) :
      Admissible K V fs ∧ r.Holds fs := by
    obtain ⟨fs', henc, hadm, hholds⟩ := exists_of_ofBytes hK hV hr
    have heq := FieldMap.encode_inj_of_encodable hfs
      (fun f hf => (hadm.fits f hf).encodable hK hV) henc
    exact heq ▸ ⟨hadm, hholds⟩
  refine ⟨⟨fun ⟨r, hr⟩ => (hsound hr).1, fun hadm => ?_⟩, fun r hr => (hsound hr).2⟩
  obtain ⟨r, hr, -⟩ := hadm.exists_ofBytes hK hV
  exact ⟨r, hr⟩

/-- The order of the fields in a map makes no difference: whatever the fields are, the map is
accepted or not in any order, and the records are equal and written as the same bytes. -/
theorem decode_of_perm {s : Settings} {maxValue : Value} (hs : s.Allows maxValue K V)
    (hfs : ∀ f ∈ fs, f.Encodable) (hp : fs.Perm gs) :
    ((∃ r, (decode s maxValue (.bytes (FieldMap.encode gs))).1 = .ok r) ↔
      ∃ r, (decode s maxValue (.bytes (FieldMap.encode fs))).1 = .ok r) ∧
    ∀ r r', (decode s maxValue (.bytes (FieldMap.encode fs))).1 = .ok r →
      (decode s maxValue (.bytes (FieldMap.encode gs))).1 = .ok r' →
      (r == r') = true ∧ r.toBytes = r'.toBytes := by
  have hgs : ∀ g ∈ gs, g.Encodable := fun g hg => hfs g (hp.mem_iff.2 hg)
  obtain ⟨hiff, hholds⟩ := ofBytes_encode hK hV hfs
  obtain ⟨hiff', hholds'⟩ := ofBytes_encode hK hV hgs
  simp only [decode_of_allows hs]
  refine ⟨?_, fun r r' hr hr' => ?_⟩
  · rw [hiff, hiff']
    exact ⟨fun h => h.perm hp.symm, fun h => h.perm hp⟩
  · exact (hholds r hr).beq_of_perm hV (hholds' r' hr') (hiff.1 ⟨r, hr⟩) hp

end

/-- The same fields the other way round. -/
theorem decode_of_reverse_unorderedFields :
    ∃ r r',
      (decode .builtIn (.int 37) (.bytes (FieldMap.encode unorderedFields))).1 = .ok r ∧
      (decode .builtIn (.int 37) (.bytes (FieldMap.encode unorderedFields.reverse))).1 = .ok r' ∧
      (r == r') = true ∧ r.toBytes = r'.toBytes := by
  have hK : (10000 : Int) < Value.sizeBound := by decide
  have hV : (37 : Int) < Value.sizeBound := by decide
  have hencodable : ∀ f ∈ unorderedFields, f.Encodable := fun f hf =>
    (admissible_unorderedFields.fits f hf).encodable hK hV
  obtain ⟨r, hr, -⟩ := admissible_unorderedFields.exists_ofBytes hK hV
  rw [← decode_of_allows allows_builtIn] at hr
  obtain ⟨hiff, hsame⟩ := decode_of_perm hK hV allows_builtIn hencodable
    (List.reverse_perm unorderedFields).symm
  obtain ⟨r', hr'⟩ := hiff.2 ⟨r, hr⟩
  exact ⟨r, r', hr, hr', hsame r r' hr hr'⟩

end PartialTx.Output
