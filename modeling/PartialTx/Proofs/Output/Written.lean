import Mathlib.Data.List.Perm.Basic
import PartialTx.Proofs.Output.Grammar

/-! What is written of a record: its fields by ascending types and, within a type, by
ascending keys. For a well-formed record this order is strict and the fields are those of
a map that can be read again. -/

namespace PartialTx

namespace FieldMap

/-- The order in which fields are written. -/
def Before (f g : Field) : Prop := f.code < g.code ∨ f.code = g.code ∧ f.key < g.key

instance : DecidableRel Before := fun f g =>
  inferInstanceAs (Decidable (f.code < g.code ∨ f.code = g.code ∧ f.key < g.key))

theorem Before.asymm {f g : Field} (h : Before f g) : ¬ Before g f := by
  rintro (h' | ⟨hc', hk'⟩) <;> rcases h with h | ⟨hc, hk⟩
  · exact UInt8.lt_asymm h h'
  · exact UInt8.lt_irrefl _ (hc ▸ h')
  · exact UInt8.lt_irrefl _ (hc' ▸ h)
  · exact List.lt_asymm hk hk'

/-- Fields can be put in this order in one way only. -/
theorem eq_of_perm {fs gs : List Field} (hfs : fs.Pairwise Before) (hgs : gs.Pairwise Before)
    (hp : fs.Perm gs) : fs = gs :=
  hp.eq_of_pairwise (fun _ _ _ _ h h' => absurd h' h.asymm) hfs hgs

theorem length_encode_of_perm {fs gs : List Field} (hp : fs.Perm gs) :
    (encode fs).length = (encode gs).length := by
  rw [encode_eq, encode_eq, List.length_append, List.length_append, body, body,
    (hp.flatMap_right Field.encode).length_eq]

/-! ### Fields by types -/

theorem ofType_flatMap {F : FieldType → List Field} (hF : ∀ t, ∀ f ∈ F t, f.code = t.code)
    (t : FieldType) : ofType t (FieldType.all.flatMap F) = F t := by
  have hpart : (fun s => ofType t (F s)) = fun s => if t = s then F s else [] := by
    funext s
    exact ofType_of_code (hF s) t
  rw [ofType, List.filter_flatMap]
  show FieldType.all.flatMap (fun s => ofType t (F s)) = F t
  -- of the six parts only that of the type is left
  rw [hpart]
  cases t <;> simp [FieldType.all]

theorem flatMap_ofType_singleton {f : Field} {type : FieldType} (h : f.code = type.code) :
    FieldType.all.flatMap (fun t => ofType t [f]) = [f] := by
  have hpart : (fun t => ofType t [f]) = fun t => if t = type then [f] else [] := by
    funext t
    exact ofType_singleton h t
  rw [hpart]
  cases type <;> simp [FieldType.all]

/-- Putting fields in the order of their types moves them only. -/
theorem perm_flatMap_ofType {fs : List Field} (h : Formed fs) :
    (FieldType.all.flatMap fun t => ofType t fs).Perm fs := by
  induction fs with
  | nil => exact List.Perm.of_eq rfl
  | cons f fs ih =>
    obtain ⟨⟨type, hc, -⟩, hfs⟩ := List.forall_mem_cons.1 h
    have hsplit : (fun t => ofType t (f :: fs)) = fun t => ofType t [f] ++ ofType t fs := by
      funext t
      exact ofType_cons t f fs
    rw [hsplit]
    refine (List.flatMap_append_perm FieldType.all _ _).symm.trans ?_
    rw [flatMap_ofType_singleton hc]
    exact (ih hfs).cons f

end FieldMap

namespace Output

open FieldMap (ofType Formed KeysDistinct Before)

variable {r : Output Bytes} {fs : List Field}

/-- A record with its origins in the order in which they are written. -/
def ordered {σ : Type} (r : Output σ) : Output σ :=
  { r with keyOrigins := Keyed.sort r.keyOrigins, tapOrigins := TapOrigin.sort r.tapOrigins }

theorem fields_eq (r : Output Bytes) : r.fields = FieldType.all.flatMap r.ordered.fieldsOf := by
  simp [fields, FieldType.all, ordered, fieldsOf]

theorem code_of_mem_fieldsOf {type : FieldType} {f : Field} (hf : f ∈ r.fieldsOf type) :
    f.code = type.code := by
  cases type <;> simp only [fieldsOf, single, List.mem_map] at hf <;>
    obtain ⟨_, -, rfl⟩ := hf <;> rfl

theorem pairwise_single {type : FieldType} {value : Option Bytes} {R : Field → Field → Prop} :
    (single type value).Pairwise R := by
  rcases value with _ | value <;> simp [single]

theorem ofType_fields (r : Output Bytes) (type : FieldType) :
    ofType type r.fields = r.ordered.fieldsOf type := by
  rw [fields_eq]
  exact FieldMap.ofType_flatMap (fun _ _ => code_of_mem_fieldsOf) type

theorem perm_fieldsOf_ordered (r : Output Bytes) (type : FieldType) :
    (r.ordered.fieldsOf type).Perm (r.fieldsOf type) := by
  cases type with
  | keyOrigin => exact (Keyed.perm_sort r.keyOrigins).map ofKeyOrigin
  | tapKeyOrigin =>
    show ((TapOrigin.sort r.tapOrigins).map ofTapOrigin).Perm (r.tapOrigins.map ofTapOrigin)
    rw [TapOrigin.sort_eq]
    exact (Keyed.perm_sort r.tapOrigins).map ofTapOrigin
  | redeemScript | witnessScript | tapInternalKey | tapTree => exact .refl _

theorem mem_fields_iff {f : Field} : f ∈ r.fields ↔ ∃ type, f ∈ r.fieldsOf type := by
  rw [fields_eq, List.mem_flatMap]
  constructor
  · rintro ⟨type, -, hf⟩
    exact ⟨type, (perm_fieldsOf_ordered r type).mem_iff.1 hf⟩
  · rintro ⟨type, hf⟩
    exact ⟨type, type.mem_all, (perm_fieldsOf_ordered r type).mem_iff.2 hf⟩

/-- The fields that a record was read from are written again in their order. -/
theorem Holds.perm_fields (h : r.Holds fs) (hform : Formed fs) : r.fields.Perm fs := by
  have hof : r.fieldsOf = fun type => ofType type fs := by
    funext type
    exact h.fieldsOf_eq type
  rw [fields_eq]
  refine (List.Perm.flatMap_left _ fun type _ => perm_fieldsOf_ordered r type).trans ?_
  rw [hof]
  exact FieldMap.perm_flatMap_ofType hform

/-! ### Well-formed records -/

theorem admits_of_mem_fieldsOf (hi : ∀ key, r.tapInternalKey = some key → Key.isXOnly key)
    {type : FieldType} {f : Field} (hf : f ∈ r.fieldsOf type) : type.Admits f := by
  cases type with
  | redeemScript | witnessScript | tapTree =>
    obtain ⟨_, -, rfl⟩ := List.mem_map.1 hf
    rfl
  | tapInternalKey =>
    obtain ⟨key, hkey, rfl⟩ := List.mem_map.1 hf
    exact ⟨rfl, Key.isXOnly_iff.1 (hi key (Option.mem_toList.1 hkey))⟩
  | keyOrigin =>
    obtain ⟨o, -, rfl⟩ := List.mem_map.1 hf
    obtain ⟨hlen, hhead⟩ := Key.isCompressed_iff.1 o.key_compressed
    exact ⟨hlen, hhead, _, o.length_pack⟩
  | tapKeyOrigin =>
    obtain ⟨o, -, rfl⟩ := List.mem_map.1 hf
    exact ⟨Key.isXOnly_iff.1 o.key_xOnly, o.exists_pack_eq⟩

/-- A record is well formed exactly if its fields can stand in one map. -/
theorem wellFormed_iff : r.WellFormed ↔
    KeysDistinct r.fieldsOf ∧ ∀ type, ∀ f ∈ r.fieldsOf type, type.Admits f := by
  have hkeys : (r.fieldsOf .keyOrigin).map Field.key = r.keyOrigins.map Keyed.key := List.map_map ..
  have htaps : (r.fieldsOf .tapKeyOrigin).map Field.key = r.tapOrigins.map Keyed.key :=
    List.map_map ..
  constructor
  · intro h
    refine ⟨fun type => ?_, fun type f hf => admits_of_mem_fieldsOf h.internalKey_xOnly hf⟩
    cases type with
    | keyOrigin => rw [hkeys]; exact h.keyOrigins_distinct
    | tapKeyOrigin => rw [htaps]; exact h.tapOrigins_distinct
    | redeemScript | witnessScript | tapInternalKey | tapTree =>
      exact List.pairwise_map.2 pairwise_single
  · rintro ⟨hdistinct, hadmits⟩
    refine ⟨?_, ?_, fun key hkey => ?_⟩
    · rw [Keyed.Distinct, ← hkeys]; exact hdistinct .keyOrigin
    · rw [Keyed.Distinct, ← htaps]; exact hdistinct .tapKeyOrigin
    · refine Key.isXOnly_iff.2 (hadmits .tapInternalKey ⟨4, [], key⟩ ?_).2
      rw [fieldsOf, hkey]
      exact List.mem_singleton_self _

theorem WellFormed.ordered {σ : Type} {r : Output σ} (h : r.WellFormed) :
    r.ordered.WellFormed where
  keyOrigins_distinct := h.keyOrigins_distinct.perm (Keyed.perm_sort _).symm
  tapOrigins_distinct := by
    show Keyed.Distinct (TapOrigin.sort r.tapOrigins)
    rw [TapOrigin.sort_eq]
    exact h.tapOrigins_distinct.perm (Keyed.perm_sort _).symm
  internalKey_xOnly := h.internalKey_xOnly

/-- The fields of a well-formed record go up strictly. -/
theorem WellFormed.ascending_fields (h : r.WellFormed) : r.fields.Pairwise Before := by
  rw [fields_eq, List.pairwise_flatMap]
  constructor
  · intro type _
    cases type with
    | keyOrigin =>
      exact List.pairwise_map.2 ((Keyed.ascending_sort h.keyOrigins_distinct).imp fun hlt =>
        .inr ⟨rfl, hlt⟩)
    | tapKeyOrigin =>
      show ((TapOrigin.sort r.tapOrigins).map ofTapOrigin).Pairwise Before
      rw [TapOrigin.sort_eq]
      exact List.pairwise_map.2 ((Keyed.ascending_sort h.tapOrigins_distinct).imp fun hlt =>
        .inr ⟨rfl, hlt⟩)
    | redeemScript | witnessScript | tapInternalKey | tapTree => exact pairwise_single
  · have hall : FieldType.all.Pairwise fun s t => s.code < t.code := by decide
    refine hall.imp fun hlt f hf g hg => .inl ?_
    rw [code_of_mem_fieldsOf hf, code_of_mem_fieldsOf hg]
    exact hlt

theorem WellFormed.formed_fields (h : r.WellFormed) : Formed r.fields := by
  intro f hf
  rw [fields_eq] at hf
  obtain ⟨type, -, hf⟩ := List.mem_flatMap.1 hf
  exact ⟨type, code_of_mem_fieldsOf hf, (wellFormed_iff.1 h.ordered).2 type f hf⟩

theorem WellFormed.keysDistinct_fields (h : r.WellFormed) :
    KeysDistinct fun type => ofType type r.fields := by
  intro type
  dsimp only
  rw [ofType_fields]
  exact (wellFormed_iff.1 h.ordered).1 type

section
variable {K V : Int}

/-- What is written of a well-formed record can be read again under limits that it keeps. -/
theorem WellFormed.admissible_fields (h : r.WellFormed)
    (hfits : ∀ f ∈ r.fields, f.Fits K V) : Admissible K V r.fields where
  key_le := fun f hf => (hfits f hf).key_le
  value_le := fun f hf => (hfits f hf).value_le
  formed := h.formed_fields
  once := fun type hs => (h.formed_fields.nodup_iff hs).1 (h.keysDistinct_fields type)
  distinct := fun type _ => h.keysDistinct_fields type

theorem WellFormed.exists_ofBytes (hK : K < Value.sizeBound) (hV : V < Value.sizeBound)
    (h : r.WellFormed) (hfits : ∀ f ∈ r.fields, f.Fits K V) :
    ∃ r', ofBytes (.upTo K V) r.toBytes = .ok r' ∧ r'.Holds r.fields :=
  (h.admissible_fields hfits).exists_ofBytes hK hV

end

end Output

end PartialTx
