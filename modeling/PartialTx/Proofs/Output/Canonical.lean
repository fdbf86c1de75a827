import PartialTx.Proofs.Output.Written

/-! Writing a record that has been read. The fields of the map are written again, byte for
byte, in the one order in which fields are written; nothing else changes. -/

namespace PartialTx.Output

open FieldMap (Before)

variable {r : Output Bytes} {fs : List Field} {K V : Int}

theorem toBytes_eq_of_ordered {r' : Output Bytes} (h : r.WellFormed) (h' : r'.WellFormed)
    (hp : r'.fields.Perm r.fields) : r'.toBytes = r.toBytes := by
  rw [toBytes, toBytes, FieldMap.eq_of_perm h'.ascending_fields h.ascending_fields hp]

theorem Holds.wellFormed (h : r.Holds fs) (hadm : Admissible K V fs) : r.WellFormed := by
  refine wellFormed_iff.2 ⟨fun type => ?_, fun type f hf => ?_⟩
  · rw [h.fieldsOf_eq]
    exact hadm.keysDistinct type
  · rw [h.fieldsOf_eq] at hf
    exact hadm.formed.admits hf

section
variable (hK : K < Value.sizeBound) (hV : V < Value.sizeBound)
include hK hV

/-- A record that has been read holds the fields of one map. -/
theorem exists_of_ofBytes {raw : Bytes} (h : ofBytes (.upTo K V) raw = .ok r) :
    ∃ fs, raw = FieldMap.encode fs ∧ Admissible K V fs ∧ r.Holds fs := by
  obtain ⟨fs, hraw, hfits, hfold⟩ := (ofBytes_eq_ok_iff hK hV).1 h
  have hext := extends_of_foldlM_store (value_lt_of_fits hV hfits) hfold
  exact ⟨fs, hraw, hext.admissible hfits, hext.holds⟩

end

section
variable {s : Settings} {maxValue : Value}

/-- Writing what has been decoded puts the fields of the map in order and changes nothing else:
the bytes stay as they are exactly if the fields were in order, and decoding and writing once
more changes nothing. -/
theorem toBytes_of_decode (hK : K < Value.sizeBound) (hV : V < Value.sizeBound)
    (hs : s.Allows maxValue K V) {raw : Bytes}
    (h : (decode s maxValue (.bytes raw)).1 = .ok r) :
    ∃ fs, (raw = FieldMap.encode fs ∧ ∀ f ∈ fs, f.Fits K V) ∧
      (∀ gs, raw = FieldMap.encode gs → (∀ g ∈ gs, g.Fits K V) → gs = fs) ∧
      r.toBytes = FieldMap.encode r.fields ∧ r.fields.Perm fs ∧ r.fields.Pairwise Before ∧
      r.toBytes.length = raw.length ∧ (r.toBytes = raw ↔ fs.Pairwise Before) ∧
      ∃ r', (decode s maxValue (.bytes r.toBytes)).1 = .ok r' ∧ r'.toBytes = r.toBytes := by
  rw [decode_of_allows hs] at h
  obtain ⟨fs, rfl, hadm, hholds⟩ := exists_of_ofBytes hK hV h
  have hwf := hholds.wellFormed hadm
  have hperm := hholds.perm_fields hadm.formed
  have hfits : ∀ f ∈ r.fields, f.Fits K V := fun f hf => hadm.fits f (hperm.mem_iff.1 hf)
  have hunique {gs : List Field} (hgs : ∀ g ∈ gs, g.Fits K V)
      (heq : FieldMap.encode gs = FieldMap.encode fs) : gs = fs :=
    FieldMap.encode_inj hK hV hgs hadm.fits heq
  refine ⟨fs, ⟨rfl, hadm.fits⟩, fun gs heq hgs => hunique hgs heq.symm, rfl, hperm,
    hwf.ascending_fields, FieldMap.length_encode_of_perm hperm, ⟨fun heq => ?_, fun hasc => ?_⟩, ?_⟩
  · rw [← hunique hfits heq]
    exact hwf.ascending_fields
  · rw [toBytes, FieldMap.eq_of_perm hwf.ascending_fields hasc hperm]
  · obtain ⟨r', hr', hholds'⟩ := hwf.exists_ofBytes hK hV hfits
    have hadm' := hwf.admissible_fields hfits
    exact ⟨r', (decode_of_allows hs _).trans hr', toBytes_eq_of_ordered hwf
      (hholds'.wellFormed hadm') (hholds'.perm_fields hadm'.formed)⟩

end

/-- Fields out of order are accepted, and come out as other bytes of the same length. -/
theorem toBytes_of_unorderedFields :
    ∃ r, (decode .builtIn (.int 37) (.bytes (FieldMap.encode unorderedFields))).1 = .ok r ∧
      r.toBytes ≠ FieldMap.encode unorderedFields ∧
      r.toBytes.length = (FieldMap.encode unorderedFields).length := by
  have hK : (10000 : Int) < Value.sizeBound := by decide
  have hV : (37 : Int) < Value.sizeBound := by decide
  have hfits := admissible_unorderedFields.fits
  obtain ⟨r, hfold, -⟩ := admissible_unorderedFields.exists_extends hV
  have hr := (decode_of_allows allows_builtIn _).trans
    ((ofBytes_eq_ok_iff hK hV).2 ⟨unorderedFields, rfl, hfits, hfold⟩)
  obtain ⟨fs, -, hunique, -, -, -, hlen, hiff, -⟩ := toBytes_of_decode hK hV allows_builtIn hr
  refine ⟨r, hr, fun heq => ?_, hlen⟩
  have hasc := hiff.1 heq
  rw [← hunique unorderedFields rfl hfits] at hasc
  exact absurd hasc (by decide)

end PartialTx.Output
