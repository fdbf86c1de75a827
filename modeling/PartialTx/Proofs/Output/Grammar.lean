import PartialTx.Output.Decode
import PartialTx.Proofs.Outcome
import PartialTx.Proofs.Output.Fields

/-! The grammar of records on the wire. A list of fields can be stored in an empty record
exactly if each field has the form of its type and no two of a type have the same key; a
type without keys then occurs at most once. The record holds the fields, type by type and
in their order. -/

namespace PartialTx

theorem FieldType.code_ne_separator (type : FieldType) : type.code ≠ Field.separator := by
  cases type <;> decide

namespace FieldMap

theorem ofType_cons (t : FieldType) (f : Field) (fs : List Field) :
    ofType t (f :: fs) = ofType t [f] ++ ofType t fs :=
  List.filter_append (p := fun f : Field => f.code == t.code) [f] fs

/-- Each field has the form of its type. -/
def Formed (fs : List Field) : Prop :=
  ∀ f ∈ fs, ∃ type : FieldType, f.code = type.code ∧ type.Admits f

/-- No two fields of a type have the same key. -/
def KeysDistinct (fields : FieldType → List Field) : Prop :=
  ∀ type, ((fields type).map Field.key).Nodup

variable {fs : List Field}

theorem Formed.admits (h : Formed fs) {type : FieldType} {f : Field} (hf : f ∈ ofType type fs) :
    type.Admits f := by
  obtain ⟨hmem, hcode⟩ := List.mem_filter.1 hf
  obtain ⟨t, hc, ha⟩ := h f hmem
  rw [FieldType.code_inj (hc.symm.trans (beq_iff_eq.1 hcode))] at ha
  exact ha

theorem Formed.code_ne (h : Formed fs) {f : Field} (hf : f ∈ fs) : f.code ≠ Field.separator := by
  obtain ⟨type, hc, -⟩ := h f hf
  exact hc ▸ type.code_ne_separator

/-- Where there are no keys, at most one field has a key of its own. -/
theorem Formed.nodup_iff (h : Formed fs) {type : FieldType} (hs : type.isSingle) :
    ((ofType type fs).map Field.key).Nodup ↔ (ofType type fs).length ≤ 1 := by
  have hnil : (ofType type fs).map Field.key = List.replicate (ofType type fs).length [] :=
    List.eq_replicate_iff.2 ⟨List.length_map .., List.forall_mem_map.2 fun f hf =>
      (h.admits hf).key_eq_nil hs⟩
  -- so many empty keys are distinct only if there is one at most
  rw [hnil, List.nodup_replicate]

end FieldMap

/-- Under the settings keys are read up to a length `K` and values up to a length `V`. -/
def Settings.Allows (s : Settings) (maxValue : Value) (K V : Int) : Prop :=
  ∃ debug, s.reading maxValue = .ok { limits := .upTo K V, debug }

namespace Output

open FieldMap (ofType Formed KeysDistinct)

variable {r r' : Output Bytes} {f : Field} {fs : List Field}

/-! ### Storing one field after another -/

theorem fieldsOf_empty (type : FieldType) : ({} : Output Bytes).fieldsOf type = [] := by
  cases type <;> rfl

theorem Adds.keysDistinct (h : r.Adds f r') (hr : KeysDistinct r.fieldsOf) :
    KeysDistinct r'.fieldsOf := by
  intro t
  obtain ⟨type, hc, -, hnew⟩ := h.admits
  rw [h.fieldsOf_eq, FieldMap.ofType_singleton hc, List.map_append]
  by_cases ht : t = type
  · rw [if_pos ht, ht]
    refine List.nodup_append.2 ⟨hr type, List.pairwise_singleton .., fun a ha b hb => ?_⟩
    obtain ⟨g, hg, rfl⟩ := List.mem_map.1 ha
    rw [List.mem_singleton.1 hb]
    exact hnew g hg
  · rw [if_neg ht, List.map_nil, List.append_nil]
    exact hr t

/-- `r'` is `r` with fields added in order. -/
structure Extends (r : Output Bytes) (fs : List Field) (r' : Output Bytes) : Prop where
  formed : Formed fs
  keysDistinct : KeysDistinct r.fieldsOf → KeysDistinct r'.fieldsOf
  fieldsOf_eq : ∀ type, r'.fieldsOf type = r.fieldsOf type ++ ofType type fs
  unflagged : r.Unflagged → r'.Unflagged

theorem Extends.refl (r : Output Bytes) : r.Extends [] r where
  formed := by simp [Formed]
  keysDistinct := id
  fieldsOf_eq := fun _ => (List.append_nil _).symm
  unflagged := id

theorem Adds.trans_extends {r₁ : Output Bytes} (h : r.Adds f r₁) (h' : r₁.Extends fs r') :
    r.Extends (f :: fs) r' where
  formed := by
    obtain ⟨type, hc, ha, -⟩ := h.admits
    exact List.forall_mem_cons.2 ⟨⟨type, hc, ha⟩, h'.formed⟩
  keysDistinct := fun hr => h'.keysDistinct (h.keysDistinct hr)
  fieldsOf_eq := fun type => by
    rw [h'.fieldsOf_eq, h.fieldsOf_eq, List.append_assoc, ← FieldMap.ofType_cons]
  unflagged := fun hr => h'.unflagged (h.unflagged hr)

theorem extends_of_foldlM_store (hlen : ∀ f ∈ fs, f.value.length < Bytes.wordCount 8)
    (h : fs.foldlM store r = .ok r') : r.Extends fs r' := by
  induction fs generalizing r with
  | nil =>
    cases h
    exact .refl _
  | cons f fs ih =>
    obtain ⟨hf, hfs⟩ := List.forall_mem_cons.1 hlen
    rw [List.foldlM_cons] at h
    rcases hstore : r.store f with fault | r₁ <;> rw [hstore] at h
    · cases h
    · exact (adds_of_store hf hstore).trans_extends (ih hfs h)

theorem exists_foldlM_store (hlen : ∀ f ∈ fs, f.value.length < Bytes.wordCount 8)
    (hform : Formed fs) (hkeys : KeysDistinct fun type => r.fieldsOf type ++ ofType type fs) :
    ∃ r', fs.foldlM store r = .ok r' := by
  -- the record holds what came before, so the key of the next field is new to it
  induction fs generalizing r with
  | nil => exact ⟨r, rfl⟩
  | cons f fs ih =>
    obtain ⟨hf, hfs⟩ := List.forall_mem_cons.1 hlen
    obtain ⟨⟨type, hc, ha⟩, hform⟩ := List.forall_mem_cons.1 hform
    have hnew : ∀ g ∈ r.fieldsOf type, g.key ≠ f.key := by
      intro g hg
      have hnodup := hkeys type
      dsimp only at hnodup
      rw [FieldMap.ofType_cons, FieldMap.ofType_singleton hc, if_pos rfl, List.map_append] at hnodup
      exact (List.nodup_append.1 hnodup).2.2 _ (List.mem_map_of_mem hg) _ List.mem_cons_self
    obtain ⟨r₁, hr₁⟩ := exists_store hf hc ha hnew
    have hadds := adds_of_store hf hr₁
    obtain ⟨r', hr'⟩ := ih (r := r₁) hfs hform fun t => by
      have hnodup := hkeys t
      dsimp only at hnodup
      rw [FieldMap.ofType_cons, ← List.append_assoc, ← hadds.fieldsOf_eq] at hnodup
      exact hnodup
    refine ⟨r', ?_⟩
    rw [List.foldlM_cons, hr₁]
    exact hr'

/-! ### Decoding -/

/-- The fields of a map: within the limits, each in the form of its type, a type without keys
at most once, and no key twice in a type with keys. -/
structure Admissible (K V : Int) (fs : List Field) : Prop where
  key_le : ∀ f ∈ fs, (f.key.length : Int) ≤ K
  value_le : ∀ f ∈ fs, (f.value.length : Int) ≤ V
  formed : Formed fs
  once : ∀ type : FieldType, type.isSingle → (ofType type fs).length ≤ 1
  distinct : ∀ type : FieldType, ¬ type.isSingle → ((ofType type fs).map Field.key).Nodup

/-- The record has of each type what the fields hold, in their order. -/
structure Holds (r : Output Bytes) (fs : List Field) : Prop where
  fieldsOf_eq : ∀ type, r.fieldsOf type = ofType type fs
  unflagged : r.Unflagged

theorem unflagged_empty : ({} : Output Bytes).Unflagged :=
  ⟨List.forall_mem_nil _, List.forall_mem_nil _⟩

theorem keysDistinct_empty : KeysDistinct ({} : Output Bytes).fieldsOf := by
  intro type
  rw [fieldsOf_empty]
  exact List.nodup_nil

theorem Extends.holds (h : ({} : Output Bytes).Extends fs r) : r.Holds fs where
  fieldsOf_eq := fun type => by rw [h.fieldsOf_eq, fieldsOf_empty, List.nil_append]
  unflagged := h.unflagged unflagged_empty

theorem Extends.keysDistinct_ofType (h : ({} : Output Bytes).Extends fs r) :
    KeysDistinct fun type => ofType type fs := by
  intro type
  dsimp only
  rw [← h.holds.fieldsOf_eq]
  exact h.keysDistinct keysDistinct_empty type

theorem exists_extends_of_formed (hlen : ∀ f ∈ fs, f.value.length < Bytes.wordCount 8)
    (hform : Formed fs) (hkeys : KeysDistinct fun type => ofType type fs) :
    ∃ r, fs.foldlM store {} = .ok r ∧ ({} : Output Bytes).Extends fs r := by
  obtain ⟨r, hr⟩ := exists_foldlM_store (r := {}) hlen hform fun type => by
    dsimp only
    rw [fieldsOf_empty]
    exact hkeys type
  exact ⟨r, hr, extends_of_foldlM_store hlen hr⟩

section
variable {K V : Int}

theorem Admissible.fits (h : Admissible K V fs) : ∀ f ∈ fs, f.Fits K V :=
  fun f hf => ⟨h.formed.code_ne hf, h.key_le f hf, h.value_le f hf⟩

theorem Admissible.keysDistinct (h : Admissible K V fs) :
    KeysDistinct fun type => ofType type fs := by
  intro type
  by_cases hs : type.isSingle
  · exact (h.formed.nodup_iff hs).2 (h.once type hs)
  · exact h.distinct type hs

theorem Extends.admissible (h : ({} : Output Bytes).Extends fs r)
    (hfits : ∀ f ∈ fs, f.Fits K V) : Admissible K V fs where
  key_le := fun f hf => (hfits f hf).key_le
  value_le := fun f hf => (hfits f hf).value_le
  formed := h.formed
  once := fun type hs => (h.formed.nodup_iff hs).1 (h.keysDistinct_ofType type)
  distinct := fun type _ => h.keysDistinct_ofType type

variable (hK : K < Value.sizeBound) (hV : V < Value.sizeBound) {raw : Bytes}
include hV

theorem value_lt_of_fits (hfits : ∀ f ∈ fs, f.Fits K V) :
    ∀ f ∈ fs, f.value.length < Bytes.wordCount 8 := by
  intro f hf
  have hle := (hfits f hf).value_le
  have hbound : Value.sizeBound ≤ Bytes.wordCount 8 := by decide
  omega

/-- Fields of a grammatical map can be stored, and the record then holds them. -/
theorem Admissible.exists_extends (h : Admissible K V fs) :
    ∃ r, fs.foldlM store {} = .ok r ∧ ({} : Output Bytes).Extends fs r :=
  exists_extends_of_formed (value_lt_of_fits hV h.fits) h.formed h.keysDistinct

include hK

/-- Decoding comes to storing the fields of a map, if they are within the limits. -/
theorem ofBytes_eq_ok_iff :
    ofBytes (.upTo K V) raw = .ok r ↔
      ∃ fs, raw = FieldMap.encode fs ∧ (∀ f ∈ fs, f.Fits K V) ∧ fs.foldlM store {} = .ok r := by
  constructor
  · intro h
    let start : Progress (Output Bytes) := { state := {}, stream := .ofBytes raw }
    rcases hp : FieldMap.populate store (.upTo K V) start with ⟨fault | _, p⟩ <;>
      rw [ofBytes, ofStream, populate, hp, complete] at h
    · cases h
    · split at h
      next hend =>
        cases h
        obtain ⟨fs, hfits, hfold, -, hadv⟩ := FieldMap.sound_populate hK hV hp
        have hnil : p.stream.rest = [] :=
          List.eq_nil_of_length_eq_zero (p.stream.length_rest.trans hend)
        have hraw := hadv.rest_eq
        rw [hnil, List.append_nil, Stream.rest_ofBytes] at hraw
        exact ⟨fs, hraw, hfits, hfold⟩
      next => cases h
  · rintro ⟨fs, rfl, hfits, hfold⟩
    have hrest := (Stream.rest_ofBytes (FieldMap.encode fs)).trans (List.append_nil _).symm
    let start : Progress (Output Bytes) :=
      { state := {}, stream := .ofBytes (FieldMap.encode fs) }
    obtain ⟨t, hadv, hp⟩ := FieldMap.complete_populate hK hV hfits (p := start)
      (Stream.plain_ofBytes _) hrest hfold
    have hend : t.remaining = 0 := by
      rw [← t.length_rest, hadv.rest_of_append hrest]
      rfl
    rw [ofBytes, ofStream, populate, hp, complete]
    dsimp only
    rw [if_pos hend]

/-- Maps of the grammar are accepted. -/
theorem Admissible.exists_ofBytes (h : Admissible K V fs) :
    ∃ r, ofBytes (.upTo K V) (FieldMap.encode fs) = .ok r ∧ r.Holds fs := by
  obtain ⟨r, hfold, hext⟩ := h.exists_extends hV
  exact ⟨r, (ofBytes_eq_ok_iff hK hV).2 ⟨fs, rfl, h.fits, hfold⟩, hext.holds⟩

end

/-! ### The origins in the fields -/

theorem mapM_keyOrigin {os : List KeyOrigin} (h : ∀ o ∈ os, KeyPath.Unflagged o.path) :
    (os.map ofKeyOrigin).mapM (fun f => KeyOrigin.ofField f.key f.value) = .ok os :=
  mapM_map_eq_ok fun o ho => KeyOrigin.ofField_eq_ok_iff.2 ⟨rfl, rfl, h o ho⟩

theorem mapM_tapOrigin {os : List TapOrigin} (h : ∀ o ∈ os, KeyPath.Unflagged o.path)
    (hlen : ∀ f ∈ os.map ofTapOrigin, f.value.length < Bytes.wordCount 8) :
    (os.map ofTapOrigin).mapM (fun f => TapOrigin.ofField f.key f.value) = .ok os :=
  mapM_map_eq_ok fun o ho =>
    (TapOrigin.ofField_eq_ok_iff (hlen _ (List.mem_map_of_mem ho))).2 ⟨rfl, rfl, h o ho⟩

/-- The origins that a record holds are what its fields decode as, in their order. -/
theorem Holds.origins (h : r.Holds fs) (hlen : ∀ f ∈ fs, f.value.length < Bytes.wordCount 8) :
    (ofType .keyOrigin fs).mapM (fun f => KeyOrigin.ofField f.key f.value) = .ok r.keyOrigins ∧
      (ofType .tapKeyOrigin fs).mapM (fun f => TapOrigin.ofField f.key f.value) =
        .ok r.tapOrigins := by
  rw [← h.fieldsOf_eq, ← h.fieldsOf_eq]
  refine ⟨mapM_keyOrigin h.unflagged.keyOrigins, mapM_tapOrigin h.unflagged.tapOrigins ?_⟩
  intro f hf
  have hof : f ∈ ofType .tapKeyOrigin fs := h.fieldsOf_eq .tapKeyOrigin ▸ hf
  exact hlen f (List.mem_filter.1 hof).1

/-! ### Decoding under settings -/

section
variable {s : Settings} {maxValue : Value} {K V : Int}

theorem decodeInto_of_allows {σ : Type} [Script σ] (hs : s.Allows maxValue K V) (r : Output σ)
    (stream : Stream) :
    (decodeInto s maxValue r stream).outcome = (populate (.upTo K V) r stream).1 ∧
      (decodeInto s maxValue r stream).progress = (populate (.upTo K V) r stream).2 := by
  obtain ⟨debug, hs⟩ := hs
  rw [decodeInto, hs]
  exact ⟨rfl, rfl⟩

theorem decode_of_allows (hs : s.Allows maxValue K V) (raw : Bytes) :
    (decode s maxValue (.bytes raw)).1 = ofBytes (.upTo K V) raw := by
  obtain ⟨houtcome, hprogress⟩ := decodeInto_of_allows hs ({} : Output Bytes) (.ofBytes raw)
  show complete ((decodeInto s maxValue ({} : Output Bytes) (.ofBytes raw)).outcome,
    (decodeInto s maxValue ({} : Output Bytes) (.ofBytes raw)).progress) = _
  rw [houtcome, hprogress]
  rfl

/-- Where the value of the first field is above the limit and its key is not, decoding tells the
length of the value. -/
theorem decode_of_value_lt (hK : K < Value.sizeBound) (hs : s.Allows maxValue K V) {f : Field}
    (hframed : f.Framed) (hk : (f.key.length : Int) ≤ K) (hv : V < f.value.length)
    (rest : Bytes) :
    (decode s maxValue (.bytes (f.encode ++ rest))).1 =
      .error (.valueTooLong f.value.length (.int V)) := by
  obtain ⟨t, ht⟩ := Field.run_read_of_value_lt (Stream.plain_ofBytes _)
    (Stream.rest_ofBytes (f.encode ++ rest)) hframed hK hk hv
  rw [decode_of_allows hs, ofBytes, ofStream, populate, FieldMap.populate_eq]
  simp only [ht, complete]

/-- Decoding accepts exactly the maps of the grammar. The record has exactly what the fields of
the map hold, and its origins are those in the fields, in their order. -/
theorem decode_accepts_iff_admissible (hK : K < Value.sizeBound) (hV : V < Value.sizeBound)
    (hs : s.Allows maxValue K V) (raw : Bytes) :
    ((∃ r, (decode s maxValue (.bytes raw)).1 = .ok r) ↔
      ∃ fs, raw = FieldMap.encode fs ∧ Admissible K V fs) ∧
    ∀ r fs, (decode s maxValue (.bytes raw)).1 = .ok r → raw = FieldMap.encode fs →
      Admissible K V fs → r.Holds fs ∧
        (ofType .keyOrigin fs).mapM (fun f => KeyOrigin.ofField f.key f.value) =
          .ok r.keyOrigins ∧
        (ofType .tapKeyOrigin fs).mapM (fun f => TapOrigin.ofField f.key f.value) =
          .ok r.tapOrigins := by
  rw [decode_of_allows hs]
  refine ⟨⟨fun ⟨r, hr⟩ => ?_, fun ⟨fs, hraw, hadm⟩ => ?_⟩, fun r fs hr hraw hadm => ?_⟩
  · obtain ⟨fs, hraw, hfits, hfold⟩ := (ofBytes_eq_ok_iff hK hV).1 hr
    have hext := extends_of_foldlM_store (value_lt_of_fits hV hfits) hfold
    exact ⟨fs, hraw, hext.admissible hfits⟩
  · obtain ⟨r, hr, -⟩ := hadm.exists_extends hV
    exact ⟨r, (ofBytes_eq_ok_iff hK hV).2 ⟨fs, hraw, hadm.fits, hr⟩⟩
  -- the given fields can be stored, and decoding has one outcome
  · obtain ⟨r', hr', hext⟩ := hadm.exists_extends hV
    have hdecoded := (ofBytes_eq_ok_iff hK hV).2 ⟨fs, hraw, hadm.fits, hr'⟩
    rw [hr] at hdecoded
    cases hdecoded
    exact ⟨hext.holds, hext.holds.origins (value_lt_of_fits hV hadm.fits)⟩

end

/-- Fields that stand in no particular order. -/
def unorderedFields : List Field := [
  { code := 3, key := 3 :: List.replicate 32 7, value := [1, 2, 3, 4, 44, 0, 0, 0x80] },
  { code := 1, key := [], value := [0x51] },
  { code := 3, key := 2 :: List.replicate 32 7, value := [1, 2, 3, 4] },
  { code := 6, key := List.replicate 32 5, value := 1 :: List.replicate 32 8 ++ [1, 2, 3, 4] }]

theorem admissible_unorderedFields : Admissible 10000 37 unorderedFields where
  key_le := by decide
  value_le := by decide
  formed := by
    refine List.forall_mem_cons.2 ⟨⟨.keyOrigin, rfl, rfl, .inr rfl, 1, rfl⟩, ?_⟩
    refine List.forall_mem_cons.2 ⟨⟨.redeemScript, rfl, rfl⟩, ?_⟩
    refine List.forall_mem_cons.2 ⟨⟨.keyOrigin, rfl, rfl, .inl rfl, 0, rfl⟩, ?_⟩
    exact List.forall_mem_singleton.2 ⟨.tapKeyOrigin, rfl, rfl, 1, 0, _, rfl, rfl⟩
  once := fun type hs => by cases type <;> first | decide | exact absurd hs (by decide)
  distinct := fun type _ => by cases type <;> decide

theorem allows_builtIn {V : Int} : Settings.builtIn.Allows (.int V) 10000 V := ⟨false, rfl⟩

/-- A script of no bytes, followed by the separator. -/
def emptyScript : Bytes := [1, 0, 0, 0xff]

theorem decode_emptyScript :
    (decode .builtIn (.int unwritable) (.bytes emptyScript)).1 =
      .error (.valueTooLong 0 (.int unwritable)) :=
  decode_of_value_lt (f := ⟨1, [], []⟩) (by decide) allows_builtIn
    ⟨by decide, by decide, by decide⟩ (by decide) unwritable_lt_zero [0xff]

theorem untold_emptyScript : Untold 10000 unwritable (.valueTooLong 0 (.int unwritable)) :=
  .value unwritable_lt_zero not_hasNumeral_unwritable

theorem decode_accepts_unorderedFields :
    ∃ r, (decode .builtIn (.int 37) (.bytes (FieldMap.encode unorderedFields))).1 = .ok r ∧
      r.Holds unorderedFields := by
  have haccepts := decode_accepts_iff_admissible (K := 10000) (V := 37) (by decide) (by decide)
    allows_builtIn (FieldMap.encode unorderedFields)
  obtain ⟨r, hr⟩ := haccepts.1.2 ⟨unorderedFields, rfl, admissible_unorderedFields⟩
  exact ⟨r, hr, (haccepts.2 r _ hr rfl admissible_unorderedFields).1⟩

end Output

end PartialTx
