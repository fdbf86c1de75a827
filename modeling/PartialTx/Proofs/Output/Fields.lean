import PartialTx.Output.Wire
import PartialTx.Proofs.FieldMap
import PartialTx.Proofs.Origin.Fields
import PartialTx.Proofs.Origin.Keyed

/-! What a record holds, as fields. Storing a field succeeds exactly if the field has the
form of its type and the record has none of this type with its key; the field then
stands behind the others of its type, which stay as they are. -/

namespace PartialTx

namespace FieldType

theorem ofCode?_eq_some_iff {code : UInt8} {type : FieldType} :
    ofCode? code = some type ↔ code = type.code := by
  constructor
  · intro h
    have := List.find?_some h
    exact (beq_iff_eq.1 this).symm
  · rintro rfl
    cases type <;> rfl

theorem code_inj {s t : FieldType} (h : s.code = t.code) : s = t := by
  have hs := ofCode?_eq_some_iff.2 (rfl : s.code = s.code)
  rw [h, ofCode?_eq_some_iff.2 rfl] at hs
  exact (Option.some.inj hs).symm

theorem mem_all (t : FieldType) : t ∈ all := by cases t <;> decide

/-- The form of a field of a type. -/
def Admits (type : FieldType) (f : Field) : Prop :=
  match type with
  | redeemScript | witnessScript | tapTree => f.key = []
  | tapInternalKey => f.key = [] ∧ f.value.length = 32
  | keyOrigin =>
    f.key.length = 33 ∧ (f.key.head? = some 2 ∨ f.key.head? = some 3) ∧
      ∃ j, f.value.length = 4 + 4 * j
  | tapKeyOrigin =>
    f.key.length = 32 ∧ ∃ m j rest,
      f.value = CompactSize.encode m ++ rest ∧ rest.length = 32 * m + 4 + 4 * j

/-- The types that a record holds once, without a key. -/
def isSingle : FieldType → Bool
  | keyOrigin | tapKeyOrigin => false
  | _ => true

theorem Admits.key_eq_nil {type : FieldType} {f : Field} (h : type.Admits f)
    (hs : type.isSingle) : f.key = [] := by
  cases type with
  | redeemScript | witnessScript | tapTree => exact h
  | tapInternalKey => exact h.1
  | keyOrigin | tapKeyOrigin => cases hs

end FieldType

theorem Key.isCompressed_iff {key : Bytes} :
    isCompressed key ↔ key.length = 33 ∧ (key.head? = some 2 ∨ key.head? = some 3) := by
  simp [isCompressed]

theorem Key.isXOnly_iff {key : Bytes} : isXOnly key ↔ key.length = 32 := by simp [isXOnly]

/-- The fields of one type, in order. -/
def FieldMap.ofType (type : FieldType) (fs : List Field) : List Field :=
  fs.filter (·.code == type.code)

theorem FieldMap.ofType_of_code {fs : List Field} {type : FieldType}
    (h : ∀ f ∈ fs, f.code = type.code) (t : FieldType) :
    ofType t fs = if t = type then fs else [] := by
  by_cases ht : t = type
  · rw [if_pos ht, ht]
    exact List.filter_eq_self.2 fun f hf => beq_iff_eq.2 (h f hf)
  · rw [if_neg ht]
    refine List.filter_eq_nil_iff.2 fun f hf hc => ht ?_
    exact FieldType.code_inj ((beq_iff_eq.1 hc).symm.trans (h f hf))

theorem FieldMap.ofType_singleton {f : Field} {type : FieldType} (h : f.code = type.code)
    (t : FieldType) : ofType t [f] = if t = type then [f] else [] :=
  ofType_of_code (List.forall_mem_singleton.2 h) t

namespace Output

/-- The fields that hold what a record has of a type, in the order in which it was added. -/
def fieldsOf (r : Output Bytes) : FieldType → List Field
  | .redeemScript => single .redeemScript r.redeemScript
  | .witnessScript => single .witnessScript r.witnessScript
  | .keyOrigin => r.keyOrigins.map ofKeyOrigin
  | .tapInternalKey => single .tapInternalKey r.tapInternalKey
  | .tapTree => single .tapTree r.tapTree
  | .tapKeyOrigin => r.tapOrigins.map ofTapOrigin

/-- No path in the record has flags. -/
structure Unflagged (r : Output Bytes) : Prop where
  keyOrigins : ∀ o ∈ r.keyOrigins, KeyPath.Unflagged o.path
  tapOrigins : ∀ o ∈ r.tapOrigins, KeyPath.Unflagged o.path

/-- `r'` is `r` with one more field, the first of its type with its key and without flags. -/
structure Adds (r : Output Bytes) (f : Field) (r' : Output Bytes) : Prop where
  admits : ∃ type : FieldType, f.code = type.code ∧ type.Admits f ∧
    ∀ g ∈ r.fieldsOf type, g.key ≠ f.key
  fieldsOf_eq : ∀ type, r'.fieldsOf type = r.fieldsOf type ++ FieldMap.ofType type [f]
  unflagged : r.Unflagged → r'.Unflagged

/-! ### Storing -/

theorem checkSingle_eq_ok_iff {α : Type} {type : FieldType} {old : Option α} {hasKey : Bool} :
    checkSingle type old hasKey = .ok () ↔ old = none ∧ hasKey = false := by
  rcases old with _ | x <;> cases hasKey <;> simp [checkSingle]

theorem forall_mem_single {type : FieldType} {old : Option Bytes} :
    (∀ g ∈ single type old, g.key ≠ []) ↔ old = none := by
  rcases old with _ | x <;> simp [single]

theorem single_some {type : FieldType} {f : Field} (hc : f.code = type.code) (hk : f.key = []) :
    single type (some f.value) = [f] := by
  rw [single, ← hc, ← hk]
  rfl

section
variable {r r' : Output Bytes} {f : Field}

theorem checkSingle_bind_eq_ok_iff {type : FieldType} {old : Option Bytes}
    {next : Except Fault (Output Bytes)} :
    (do checkSingle type old !f.key.isEmpty; next) = .ok r' ↔
      old = none ∧ f.key = [] ∧ next = .ok r' := by
  rcases hc : checkSingle type old !f.key.isEmpty with fault | u
  · refine ⟨nofun, fun ⟨hold, hkey, _⟩ => ?_⟩
    rw [checkSingle_eq_ok_iff.2 ⟨hold, by rw [hkey]; rfl⟩] at hc
    cases hc
  · obtain ⟨hold, hkey⟩ := checkSingle_eq_ok_iff.1 hc
    have hnil : f.key = [] := by simpa using hkey
    exact ⟨fun h => ⟨hold, hnil, h⟩, fun h => h.2.2⟩

theorem Adds.of_type {type : FieldType} (hc : f.code = type.code) (ha : type.Admits f)
    (hnew : ∀ g ∈ r.fieldsOf type, g.key ≠ f.key)
    (hself : r'.fieldsOf type = r.fieldsOf type ++ [f])
    (hothers : ∀ t ≠ type, r'.fieldsOf t = r.fieldsOf t) (hu : r.Unflagged → r'.Unflagged) :
    r.Adds f r' := by
  refine ⟨⟨type, hc, ha, hnew⟩, fun t => ?_, hu⟩
  rw [FieldMap.ofType_singleton hc]
  by_cases ht : t = type
  · rw [if_pos ht, ht, hself]
  · rw [if_neg ht, hothers t ht, List.append_nil]

theorem Adds.of_single {type : FieldType} (hc : f.code = type.code) (ha : type.Admits f)
    (hk : f.key = []) (hold : r.fieldsOf type = [])
    (hself : r'.fieldsOf type = single type (some f.value))
    (hothers : ∀ t ≠ type, r'.fieldsOf t = r.fieldsOf t) (hu : r.Unflagged → r'.Unflagged) :
    r.Adds f r' := by
  refine .of_type hc ha ?_ ?_ hothers hu
  · rw [hold]
    exact List.forall_mem_nil _
  · rw [hself, hold, single_some hc hk]
    rfl

theorem addKeyOrigin_eq_ok_iff {σ : Type} {r r' : Output σ} {o : KeyOrigin} :
    r.addKeyOrigin o = .ok r' ↔
      (∀ x ∈ r.keyOrigins, x.key ≠ o.key) ∧ r' = { r with keyOrigins := r.keyOrigins ++ [o] } := by
  unfold addKeyOrigin
  rcases ha : Keyed.add? r.keyOrigins o with _ | added
  · exact ⟨nofun, fun h => absurd h.1 (Keyed.add?_eq_none_iff.1 ha)⟩
  · obtain ⟨hnew, rfl⟩ := Keyed.add?_eq_some_iff.1 ha
    exact ⟨fun h => ⟨hnew, (Except.ok.inj h).symm⟩, fun h => congrArg Except.ok h.2.symm⟩

theorem addTapOrigin_eq_ok_iff {σ : Type} {r r' : Output σ} {o : TapOrigin} :
    r.addTapOrigin o = .ok r' ↔
      (∀ x ∈ r.tapOrigins, x.key ≠ o.key) ∧ r' = { r with tapOrigins := r.tapOrigins ++ [o] } := by
  unfold addTapOrigin
  rcases ha : Keyed.add? r.tapOrigins o with _ | added
  · exact ⟨nofun, fun h => absurd h.1 (Keyed.add?_eq_none_iff.1 ha)⟩
  · obtain ⟨hnew, rfl⟩ := Keyed.add?_eq_some_iff.1 ha
    exact ⟨fun h => ⟨hnew, (Except.ok.inj h).symm⟩, fun h => congrArg Except.ok h.2.symm⟩

theorem Adds.of_addKeyOrigin {o : KeyOrigin} (hc : f.code = FieldType.keyOrigin.code)
    (hk : Key.isCompressed f.key) (ho : KeyOrigin.ofField f.key f.value = .ok o)
    (h : r.addKeyOrigin o = .ok r') : r.Adds f r' := by
  obtain ⟨hkey, hpack, hu⟩ := KeyOrigin.ofField_eq_ok_iff.1 ho
  obtain ⟨hnew, rfl⟩ := addKeyOrigin_eq_ok_iff.1 h
  obtain ⟨h33, hhead⟩ := Key.isCompressed_iff.1 hk
  have hf : ofKeyOrigin o = f := by rw [ofKeyOrigin, hkey, hpack, ← hc]
  have ha : FieldType.keyOrigin.Admits f := ⟨h33, hhead, _, hpack ▸ o.length_pack⟩
  refine .of_type hc ha ?_ ?_ (fun t ht => ?_) fun hr => ⟨?_, hr.2⟩
  · exact List.forall_mem_map.2 fun x hx => hkey ▸ hnew x hx
  · rw [fieldsOf, fieldsOf, List.map_append, List.map_singleton, hf]
  · cases t <;> first | rfl | exact absurd rfl ht
  · exact List.forall_mem_append.2 ⟨hr.1, List.forall_mem_singleton.2 hu⟩

theorem Adds.of_addTapOrigin {o : TapOrigin} (hlen : f.value.length < Bytes.wordCount 8)
    (hc : f.code = FieldType.tapKeyOrigin.code) (hk : Key.isXOnly f.key)
    (ho : TapOrigin.ofField f.key f.value = .ok o) (h : r.addTapOrigin o = .ok r') :
    r.Adds f r' := by
  obtain ⟨hkey, hpack, hu⟩ := (TapOrigin.ofField_eq_ok_iff hlen).1 ho
  obtain ⟨hnew, rfl⟩ := addTapOrigin_eq_ok_iff.1 h
  have hf : ofTapOrigin o = f := by rw [ofTapOrigin, hkey, hpack, ← hc]
  have ha : FieldType.tapKeyOrigin.Admits f := ⟨Key.isXOnly_iff.1 hk, hpack ▸ o.exists_pack_eq⟩
  refine .of_type hc ha ?_ ?_ (fun t ht => ?_) fun hr => ⟨hr.1, ?_⟩
  · exact List.forall_mem_map.2 fun x hx => hkey ▸ hnew x hx
  · rw [fieldsOf, fieldsOf, List.map_append, List.map_singleton, hf]
  · cases t <;> first | rfl | exact absurd rfl ht
  · exact List.forall_mem_append.2 ⟨hr.2, List.forall_mem_singleton.2 hu⟩

/-- A field that is stored stands behind the others of its type. -/
theorem adds_of_store (hlen : f.value.length < Bytes.wordCount 8) (h : r.store f = .ok r') :
    r.Adds f r' := by
  rcases htype : FieldType.ofCode? f.code with _ | type <;> rw [store, htype] at h
  · cases h
  have hc := FieldType.ofCode?_eq_some_iff.1 htype
  cases type with
  | redeemScript | witnessScript | tapTree =>
    obtain ⟨hold, hk, hr⟩ := checkSingle_bind_eq_ok_iff.1 h
    cases hr
    refine .of_single hc hk hk (by rw [fieldsOf, hold]; rfl) rfl (fun t ht => ?_)
      fun hu => ⟨hu.1, hu.2⟩
    cases t <;> first | rfl | exact absurd rfl ht
  | tapInternalKey =>
    obtain ⟨hold, hk, hr⟩ := checkSingle_bind_eq_ok_iff.1 h
    split at hr
    next hx =>
      cases hr
      refine .of_single hc ⟨hk, Key.isXOnly_iff.1 hx⟩ hk (by rw [fieldsOf, hold]; rfl) rfl
        (fun t ht => ?_) fun hu => ⟨hu.1, hu.2⟩
      cases t <;> first | rfl | exact absurd rfl ht
    next => cases hr
  | keyOrigin =>
    dsimp only at h
    split at h
    next hk =>
      rcases ho : KeyOrigin.ofField f.key f.value with fault | o <;> rw [ho] at h
      · cases h
      · exact .of_addKeyOrigin hc hk ho h
    next => cases h
  | tapKeyOrigin =>
    dsimp only at h
    split at h
    next hk =>
      rcases ho : TapOrigin.ofField f.key f.value with fault | o <;> rw [ho] at h
      · cases h
      · exact .of_addTapOrigin hlen hc hk ho h
    next => cases h

/-- A field of the right form with a new key can be stored. -/
theorem exists_store {type : FieldType} (hlen : f.value.length < Bytes.wordCount 8)
    (hc : f.code = type.code) (ha : type.Admits f) (hnew : ∀ g ∈ r.fieldsOf type, g.key ≠ f.key) :
    ∃ r', r.store f = .ok r' := by
  simp only [store, FieldType.ofCode?_eq_some_iff.2 hc]
  cases type with
  | redeemScript | witnessScript | tapTree =>
    rw [show f.key = [] from ha] at hnew
    exact ⟨_, checkSingle_bind_eq_ok_iff.2 ⟨forall_mem_single.1 hnew, ha, rfl⟩⟩
  | tapInternalKey =>
    obtain ⟨hk, hv⟩ := ha
    rw [hk] at hnew
    have hstored : (if Key.isXOnly f.value then pure { r with tapInternalKey := some f.value }
        else throw (.valueNotXOnlyKey .tapInternalKey f.value.length)) =
          (.ok { r with tapInternalKey := some f.value } : Except Fault (Output Bytes)) :=
      if_pos (Key.isXOnly_iff.2 hv)
    exact ⟨_, checkSingle_bind_eq_ok_iff.2 ⟨forall_mem_single.1 hnew, hk, hstored⟩⟩
  | keyOrigin =>
    obtain ⟨h33, hhead, j, hj⟩ := ha
    have hk := Key.isCompressed_iff.2 ⟨h33, hhead⟩
    obtain ⟨o, ho⟩ := KeyOrigin.exists_ofField hk hj
    obtain ⟨hkey, -, -⟩ := KeyOrigin.ofField_eq_ok_iff.1 ho
    dsimp only
    rw [if_pos hk, ho]
    refine ⟨_, addKeyOrigin_eq_ok_iff.2 ⟨fun x hx => ?_, rfl⟩⟩
    rw [hkey]
    exact hnew (ofKeyOrigin x) (List.mem_map_of_mem hx)
  | tapKeyOrigin =>
    obtain ⟨h32, m, j, rest, hv, hj⟩ := ha
    have hk := Key.isXOnly_iff.2 h32
    -- the leaf hashes are in the value, so their number has an encoding
    have hm : m < Bytes.wordCount 8 := by
      rw [hv, List.length_append] at hlen
      omega
    obtain ⟨o, ho⟩ := TapOrigin.exists_ofField hk hm hj
    dsimp only
    rw [if_pos hk, hv, ho]
    refine ⟨_, addTapOrigin_eq_ok_iff.2 ⟨fun x hx => ?_, rfl⟩⟩
    rw [(TapOrigin.unpackTap_of_ofField ho).1]
    exact hnew (ofTapOrigin x) (List.mem_map_of_mem hx)

end

end Output

end PartialTx
