import PartialTx.Proofs.Output.Faults
import PartialTx.Proofs.Output.History

/-! What storing a field comes to. For a type without keys it is looked first whether the
record has such a field, then at the key and at the value; for a type with keys first at the
key, then at the value, and last whether the record has the key. The first of these checks
that fails gives the kind of the fault. A field that passes them is the only change. -/

namespace PartialTx

theorem mapError_eq_ok_iff {α ε κ : Type} {x : Except ε α} {f : ε → κ} {a : α} :
    x.mapError f = .ok a ↔ x = .ok a := by
  rcases x with e | b
  · exact ⟨nofun, nofun⟩
  · exact ⟨fun h => congrArg Except.ok (Except.ok.inj h),
      fun h => congrArg Except.ok (Except.ok.inj h)⟩

namespace FieldType

/-- The form of the key in a field of a type. -/
def KeyFits : FieldType → Bytes → Prop
  | keyOrigin, key => key.length = 33 ∧ (key.head? = some 2 ∨ key.head? = some 3)
  | tapKeyOrigin, key => key.length = 32
  | _, key => key = []

/-- The form of the value in a field of a type. -/
def ValueFits : FieldType → Bytes → Prop
  | tapInternalKey, value => value.length = 32
  | keyOrigin, value => ∃ j, value.length = 4 + 4 * j
  | tapKeyOrigin, value => ∃ m j rest, m < Bytes.wordCount 8 ∧
      value = CompactSize.encode m ++ rest ∧ rest.length = 32 * m + 4 + 4 * j
  | _, _ => True

end FieldType

/-! ### Origins in fields -/

theorem KeyOrigin.ofField_of_not_fits (key : Bytes) {value : Bytes}
    (hv : ¬ FieldType.keyOrigin.ValueFits value) :
    ∃ fault, ofField key value = .error fault ∧ fault.kind = .malformedValue := by
  rcases hu : Origin.unpack value with fault | ⟨fingerprint, ns⟩
  · exact ⟨fault, by rw [ofField, hu]; rfl, Origin.kind_of_unpack_error hu⟩
  · obtain ⟨hf, rfl⟩ := Origin.unpack_eq_ok_iff.1 hu
    exact absurd ⟨_, Origin.length_pack hf ns⟩ hv

theorem TapOrigin.ofField_of_not_fits (key : Bytes) {value : Bytes}
    (hv : ¬ FieldType.tapKeyOrigin.ValueFits value) :
    ∃ fault, ofField key value = .error fault ∧ fault.kind = .malformedValue := by
  rcases hu : Origin.unpackTap value with fault | parts
  · exact ⟨fault, by rw [ofField, hu]; rfl, Origin.kind_of_unpackTap_error hu⟩
  · obtain ⟨m, j, rest, h⟩ := Origin.exists_of_unpackTap hu
    exact absurd ⟨m, j, rest, h⟩ hv

namespace Output

section
variable {σ : Type}

/-- The record has something of a type and a key: the field is set, whatever the key, or there
is an origin of the key. -/
def Has (r : Output σ) : FieldType → Bytes → Prop
  | .redeemScript, _ => r.redeemScript.isSome
  | .witnessScript, _ => r.witnessScript.isSome
  | .keyOrigin, key => ∃ o ∈ r.keyOrigins, o.key = key
  | .tapInternalKey, _ => r.tapInternalKey.isSome
  | .tapTree, _ => r.tapTree.isSome
  | .tapKeyOrigin, key => ∃ o ∈ r.tapOrigins, o.key = key

variable [Script σ]

/-- The record with one more field, which is set, or whose origin stands behind the others.
Nothing else changes. -/
inductive Puts (r : Output σ) (key value : Bytes) : FieldType → Output σ → Prop
  | redeemScript :
    Puts r key value .redeemScript { r with redeemScript := some (Script.ofBytes value) }
  | witnessScript :
    Puts r key value .witnessScript { r with witnessScript := some (Script.ofBytes value) }
  | keyOrigin {o : KeyOrigin} (hkey : o.key = key) (hpack : o.pack = value)
      (hpath : KeyPath.Unflagged o.path) :
    Puts r key value .keyOrigin { r with keyOrigins := r.keyOrigins ++ [o] }
  | tapInternalKey : Puts r key value .tapInternalKey { r with tapInternalKey := some value }
  | tapTree : Puts r key value .tapTree { r with tapTree := some (Script.ofBytes value) }
  | tapKeyOrigin {o : TapOrigin} (hkey : o.key = key) (hpack : o.pack = value)
      (hpath : KeyPath.Unflagged o.path) (hcount : o.leafHashes.length < Bytes.wordCount 8) :
    Puts r key value .tapKeyOrigin { r with tapOrigins := r.tapOrigins ++ [o] }

/-- What storing a field comes to, a fault being told by its kind. -/
inductive Decided (r : Output σ) (key value : Bytes) :
    FieldType → Except Fault.Kind (Output σ) → Prop
  | isSet {type : FieldType} (hs : type.isSingle) (h : r.Has type key) :
    Decided r key value type (.error .duplicate)
  | keyGiven {type : FieldType} (hs : type.isSingle) (h : ¬ r.Has type key)
      (hk : ¬ type.KeyFits key) :
    Decided r key value type (.error .invalidKey)
  | valueUnfit {type : FieldType} (hs : type.isSingle) (h : ¬ r.Has type key)
      (hk : type.KeyFits key) (hv : ¬ type.ValueFits value) :
    Decided r key value type (.error .invalidKey)
  | keyUnfit {type : FieldType} (hs : ¬ type.isSingle) (hk : ¬ type.KeyFits key) :
    Decided r key value type (.error .invalidKey)
  | malformed {type : FieldType} (hs : ¬ type.isSingle) (hk : type.KeyFits key)
      (hv : ¬ type.ValueFits value) :
    Decided r key value type (.error .malformedValue)
  | keyTaken {type : FieldType} (hs : ¬ type.isSingle) (hk : type.KeyFits key)
      (hv : type.ValueFits value) (h : r.Has type key) :
    Decided r key value type (.error .duplicate)
  | stored {type : FieldType} {r' : Output σ} (hk : type.KeyFits key)
      (hv : type.ValueFits value) (h : ¬ r.Has type key) (hput : r.Puts key value type r') :
    Decided r key value type (.ok r')

variable {r r' : Output σ} {key value : Bytes} {type : FieldType}

theorem exists_puts (r : Output σ) (hk : type.KeyFits key) (hv : type.ValueFits value) :
    ∃ r', r.Puts key value type r' := by
  cases type with
  | redeemScript => exact ⟨_, .redeemScript⟩
  | witnessScript => exact ⟨_, .witnessScript⟩
  | tapInternalKey => exact ⟨_, .tapInternalKey⟩
  | tapTree => exact ⟨_, .tapTree⟩
  | keyOrigin =>
    obtain ⟨j, hj⟩ := hv
    obtain ⟨o, ho⟩ := KeyOrigin.exists_ofField (Key.isCompressed_iff.2 hk) hj
    obtain ⟨hkey, hpack, hpath⟩ := KeyOrigin.ofField_eq_ok_iff.1 ho
    exact ⟨_, .keyOrigin hkey hpack hpath⟩
  | tapKeyOrigin =>
    obtain ⟨m, j, rest, hm, rfl, hrest⟩ := hv
    obtain ⟨o, ho⟩ := TapOrigin.exists_ofField (Key.isXOnly_iff.2 hk) hm hrest
    obtain ⟨hkey, hpath, hu⟩ := TapOrigin.unpackTap_of_ofField ho
    obtain ⟨hparts, hpack⟩ := Origin.unpackTap_eq_ok_iff.1 hu
    exact ⟨_, .tapKeyOrigin hkey hpack.symm hpath hparts.count_lt⟩

/-- There is always a rule that applies. -/
theorem exists_decided (r : Output σ) (key value : Bytes) (type : FieldType) :
    ∃ x, r.Decided key value type x := by
  have hstored (hk : type.KeyFits key) (hv : type.ValueFits value) (h : ¬ r.Has type key) :
      ∃ x, r.Decided key value type x := by
    obtain ⟨r', hput⟩ := exists_puts r hk hv
    exact ⟨_, .stored hk hv h hput⟩
  by_cases hs : type.isSingle
  · by_cases h : r.Has type key
    · exact ⟨_, .isSet hs h⟩
    by_cases hk : type.KeyFits key
    · by_cases hv : type.ValueFits value
      · exact hstored hk hv h
      · exact ⟨_, .valueUnfit hs h hk hv⟩
    · exact ⟨_, .keyGiven hs h hk⟩
  · by_cases hk : type.KeyFits key
    · by_cases hv : type.ValueFits value
      · by_cases h : r.Has type key
        · exact ⟨_, .keyTaken hs hk hv h⟩
        · exact hstored hk hv h
      · exact ⟨_, .malformed hs hk hv⟩
    · exact ⟨_, .keyUnfit hs hk⟩

/-! ### The checks -/

omit [Script σ] in
theorem addKeyOrigin_of_mem {o : KeyOrigin} (h : ∃ x ∈ r.keyOrigins, x.key = o.key) :
    r.addKeyOrigin o = .error (.duplicateKey .keyOrigin o.key) := by
  obtain ⟨x, hx, hkey⟩ := h
  rw [addKeyOrigin, Keyed.add?_eq_none_iff.2 fun hnew => hnew x hx hkey]

omit [Script σ] in
theorem addTapOrigin_of_mem {o : TapOrigin} (h : ∃ x ∈ r.tapOrigins, x.key = o.key) :
    r.addTapOrigin o = .error (.duplicateKey .tapKeyOrigin o.key) := by
  obtain ⟨x, hx, hkey⟩ := h
  rw [addTapOrigin, Keyed.add?_eq_none_iff.2 fun hnew => hnew x hx hkey]

theorem checkSingle_bind {α β : Type} {old : Option α} {hasKey : Bool}
    {next : Unit → Except Fault β} {x : Except Fault Unit}
    (h : checkSingle type old hasKey = x) : (checkSingle type old hasKey >>= next) = x >>= next :=
  h ▸ rfl

/-- A field with an origin is stored by adding the origin. -/
theorem store_eq_addKeyOrigin (r : Output σ) {f : Field} {o : KeyOrigin}
    (hc : f.code = FieldType.keyOrigin.code)
    (ho : KeyOrigin.ofField f.key f.value = .ok o) : r.store f = r.addKeyOrigin o := by
  have hk : Key.isCompressed f.key := (KeyOrigin.ofField_eq_ok_iff.1 ho).1 ▸ o.key_compressed
  simp only [store, FieldType.ofCode?_eq_some_iff.2 hc, if_pos hk, ho]
  rfl

theorem store_eq_addTapOrigin (r : Output σ) {f : Field} {o : TapOrigin}
    (hc : f.code = FieldType.tapKeyOrigin.code) (ho : TapOrigin.ofField f.key f.value = .ok o) :
    r.store f = r.addTapOrigin o := by
  have hk : Key.isXOnly f.key := (TapOrigin.unpackTap_of_ofField ho).1 ▸ o.key_xOnly
  simp only [store, FieldType.ofCode?_eq_some_iff.2 hc, if_pos hk, ho]
  rfl

/-- An origin's own field is stored by adding the origin without its flags. -/
theorem store_ofKeyOrigin (r : Output σ) (o : KeyOrigin) :
    r.store (ofKeyOrigin o) = r.addKeyOrigin o.unflagged :=
  store_eq_addKeyOrigin r rfl o.ofField_pack

theorem store_ofTapOrigin (r : Output σ) {o : TapOrigin}
    (h : o.leafHashes.length < Bytes.wordCount 8) :
    r.store (ofTapOrigin o) = r.addTapOrigin o.unflagged :=
  store_eq_addTapOrigin r rfl (TapOrigin.ofField_pack h)

variable {f : Field} (hc : f.code = type.code)
include hc

theorem store_of_isSet (hs : type.isSingle) (h : r.Has type f.key) :
    r.store f = .error (.duplicateField type) := by
  simp only [store, FieldType.ofCode?_eq_some_iff.2 hc]
  cases type with
  | redeemScript | witnessScript | tapInternalKey | tapTree =>
    exact checkSingle_bind (x := .error _) (if_pos h)
  | keyOrigin | tapKeyOrigin => cases hs

theorem store_of_keyGiven (hs : type.isSingle) (h : ¬ r.Has type f.key)
    (hk : ¬ type.KeyFits f.key) : r.store f = .error (.keyNotEmpty type) := by
  have hkey {a b : Except Fault Unit} (hnil : f.key ≠ []) : (if !f.key.isEmpty then a else b) = a :=
    if_pos (by simpa using hnil)
  simp only [store, FieldType.ofCode?_eq_some_iff.2 hc]
  cases type with
  | redeemScript | witnessScript | tapInternalKey | tapTree =>
    exact checkSingle_bind (x := .error _) ((if_neg h).trans (hkey hk))
  | keyOrigin | tapKeyOrigin => cases hs

theorem store_of_valueUnfit (hs : type.isSingle) (h : ¬ r.Has type f.key)
    (hk : type.KeyFits f.key) (hv : ¬ type.ValueFits f.value) :
    r.store f = .error (.valueNotXOnlyKey type f.value.length) := by
  simp only [store, FieldType.ofCode?_eq_some_iff.2 hc]
  cases type with
  | tapInternalKey =>
    have hchecked : checkSingle .tapInternalKey r.tapInternalKey (!f.key.isEmpty) = .ok () :=
      checkSingle_eq_ok_iff.2 ⟨by simpa [Has] using h, by simpa [FieldType.KeyFits] using hk⟩
    exact (checkSingle_bind hchecked).trans (if_neg fun hx => hv (Key.isXOnly_iff.1 hx))
  | redeemScript | witnessScript | tapTree => exact absurd trivial hv
  | keyOrigin | tapKeyOrigin => cases hs

theorem store_of_keyUnfit (hs : ¬ type.isSingle) (hk : ¬ type.KeyFits f.key) :
    r.store f = .error (.keyMalformed type f.key.length) := by
  simp only [store, FieldType.ofCode?_eq_some_iff.2 hc]
  cases type with
  | keyOrigin => exact if_neg fun hx => hk (Key.isCompressed_iff.1 hx)
  | tapKeyOrigin => exact if_neg fun hx => hk (Key.isXOnly_iff.1 hx)
  | redeemScript | witnessScript | tapInternalKey | tapTree => exact absurd rfl hs

theorem store_of_malformed (hs : ¬ type.isSingle) (hk : type.KeyFits f.key)
    (hv : ¬ type.ValueFits f.value) :
    ∃ fault, r.store f = .error fault ∧ fault.kind = .malformedValue := by
  simp only [store, FieldType.ofCode?_eq_some_iff.2 hc]
  cases type with
  | keyOrigin =>
    obtain ⟨fault, hfault, hkind⟩ := KeyOrigin.ofField_of_not_fits f.key hv
    rw [hfault]
    exact ⟨fault, if_pos (Key.isCompressed_iff.2 hk), hkind⟩
  | tapKeyOrigin =>
    obtain ⟨fault, hfault, hkind⟩ := TapOrigin.ofField_of_not_fits f.key hv
    rw [hfault]
    exact ⟨fault, if_pos (Key.isXOnly_iff.2 hk), hkind⟩
  | redeemScript | witnessScript | tapInternalKey | tapTree => exact absurd rfl hs

theorem store_of_keyTaken (hs : ¬ type.isSingle) (hk : type.KeyFits f.key)
    (hv : type.ValueFits f.value) (h : r.Has type f.key) :
    r.store f = .error (.duplicateKey type f.key) := by
  cases type with
  | keyOrigin =>
    obtain ⟨j, hj⟩ := hv
    obtain ⟨o, ho⟩ := KeyOrigin.exists_ofField (Key.isCompressed_iff.2 hk) hj
    have hkey := (KeyOrigin.ofField_eq_ok_iff.1 ho).1
    rw [store_eq_addKeyOrigin r hc ho, addKeyOrigin_of_mem (hkey ▸ h), hkey]
  | tapKeyOrigin =>
    obtain ⟨m, j, rest, hm, hv, hrest⟩ := hv
    obtain ⟨o, ho⟩ := TapOrigin.exists_ofField (Key.isXOnly_iff.2 hk) hm hrest
    rw [← hv] at ho
    have hkey := (TapOrigin.unpackTap_of_ofField ho).1
    rw [store_eq_addTapOrigin r hc ho, addTapOrigin_of_mem (hkey ▸ h), hkey]
  | redeemScript | witnessScript | tapInternalKey | tapTree => exact absurd rfl hs

theorem store_of_puts (hk : type.KeyFits f.key) (hv : type.ValueFits f.value)
    (h : ¬ r.Has type f.key) (hput : r.Puts f.key f.value type r') : r.store f = .ok r' := by
  cases hput with
  | redeemScript | witnessScript | tapTree =>
    simp only [store, FieldType.ofCode?_eq_some_iff.2 hc]
    exact checkSingle_bind (checkSingle_eq_ok_iff.2
      ⟨by simpa [Has] using h, by simpa [FieldType.KeyFits] using hk⟩)
  | tapInternalKey =>
    simp only [store, FieldType.ofCode?_eq_some_iff.2 hc]
    exact (checkSingle_bind (checkSingle_eq_ok_iff.2
      ⟨by simpa [Has] using h, by simpa [FieldType.KeyFits] using hk⟩)).trans
        (if_pos (Key.isXOnly_iff.2 hv))
  | keyOrigin hkey hpack hpath =>
    rw [store_eq_addKeyOrigin r hc (KeyOrigin.ofField_eq_ok_iff.2 ⟨hkey, hpack, hpath⟩)]
    exact addKeyOrigin_eq_ok_iff.2 ⟨fun x hx heq => h ⟨x, hx, heq.trans hkey⟩, rfl⟩
  | tapKeyOrigin hkey hpack hpath hcount =>
    have ho := TapOrigin.ofField_pack hcount
    rw [hkey, hpack, TapOrigin.unflagged_eq hpath] at ho
    rw [store_eq_addTapOrigin r hc ho]
    exact addTapOrigin_eq_ok_iff.2 ⟨fun x hx heq => h ⟨x, hx, heq.trans hkey⟩, rfl⟩

/-! ### The outcome -/

theorem Decided.mapError_store {x : Except Fault.Kind (Output σ)}
    (h : r.Decided f.key f.value type x) : (r.store f).mapError Fault.kind = x := by
  cases h with
  | isSet hs h => rw [store_of_isSet hc hs h]; rfl
  | keyGiven hs h hk => rw [store_of_keyGiven hc hs h hk]; rfl
  | valueUnfit hs h hk hv => rw [store_of_valueUnfit hc hs h hk hv]; rfl
  | keyUnfit hs hk => rw [store_of_keyUnfit hc hs hk]; rfl
  | malformed hs hk hv =>
    obtain ⟨fault, hfault, hkind⟩ := store_of_malformed (r := r) hc hs hk hv
    rw [hfault, ← hkind]
    rfl
  | keyTaken hs hk hv h => rw [store_of_keyTaken hc hs hk hv h]; rfl
  | stored hk hv h hput => rw [store_of_puts hc hk hv h hput]; rfl

/-- Storing a field comes to what is decided by the rules. -/
theorem mapError_store_eq_iff {x : Except Fault.Kind (Output σ)} :
    (r.store f).mapError Fault.kind = x ↔ r.Decided f.key f.value type x := by
  refine ⟨fun hx => ?_, Decided.mapError_store hc⟩
  obtain ⟨y, hy⟩ := exists_decided r f.key f.value type
  rwa [← hx, hy.mapError_store hc]

/-- A field is stored exactly if its key and value have their form and the record has nothing
of its type and key. -/
theorem store_eq_ok_iff : r.store f = .ok r' ↔
    type.KeyFits f.key ∧ type.ValueFits f.value ∧ ¬ r.Has type f.key ∧
      r.Puts f.key f.value type r' := by
  refine ⟨fun h => ?_, fun ⟨hk, hv, hnew, hput⟩ => store_of_puts hc hk hv hnew hput⟩
  cases (mapError_store_eq_iff hc).1 (mapError_eq_ok_iff.2 h) with
  | stored hk hv hnew hput => exact ⟨hk, hv, hnew, hput⟩

end

end Output

end PartialTx
