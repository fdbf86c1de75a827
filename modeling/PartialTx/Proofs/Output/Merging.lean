import PartialTx.Proofs.Origin.Lookup
import PartialTx.Proofs.Output.RoundTrip
import PartialTx.Proofs.Output.Storing

/-! Reading a map into a record that has something already. If the map alone makes a record,
and this has nothing in common with the one that is there, then field by field the two come
together, and the record in the end is the combination of both. If they have something in
common, the reading stops there, at a duplicate. -/

namespace PartialTx.Output

section
variable {σ τ : Type}

/-- Records with no single field that is set in both, and no key of a type in both. -/
def Apart (r : Output σ) (d : Output τ) : Prop := ∀ type key, r.Has type key → ¬ d.Has type key

/-- The record with what another has: its single fields, and its origins behind the others. -/
def join (r d : Output σ) : Output σ where
  redeemScript := d.redeemScript <|> r.redeemScript
  witnessScript := d.witnessScript <|> r.witnessScript
  keyOrigins := r.keyOrigins ++ d.keyOrigins
  tapInternalKey := d.tapInternalKey <|> r.tapInternalKey
  tapTree := d.tapTree <|> r.tapTree
  tapOrigins := r.tapOrigins ++ d.tapOrigins

variable {r d : Output σ} {type : FieldType} {key : Bytes}

theorem has_map {f : σ → τ} : (d.map f).Has type key ↔ d.Has type key := by
  cases type <;> simp [Has, map]

theorem has_join : (r.join d).Has type key ↔ r.Has type key ∨ d.Has type key := by
  cases type with
  | keyOrigin | tapKeyOrigin => simp only [Has, join, List.mem_append, or_and_right, exists_or]
  | redeemScript | witnessScript | tapInternalKey | tapTree => simp [Has, join, or_comm]

theorem join_empty (r : Output σ) : r.join {} = r := by simp [join]

/-- Records without anything in common are combined by joining them. -/
theorem Apart.join_eq (h : r.Apart d) (hd : d.WellFormed) : r.join d = r.combine d := by
  have hkeys : Keyed.override r.keyOrigins d.keyOrigins = r.keyOrigins ++ d.keyOrigins := by
    rw [Keyed.override_eq hd.keyOrigins_distinct, List.filter_eq_self.2]
    intro o ho
    rw [Option.isNone_iff_eq_none, Keyed.find?_eq_none_iff]
    exact fun x hx heq => h .keyOrigin o.key ⟨o, ho, rfl⟩ ⟨x, hx, heq⟩
  have htaps : Keyed.override r.tapOrigins d.tapOrigins = r.tapOrigins ++ d.tapOrigins := by
    rw [Keyed.override_eq hd.tapOrigins_distinct, List.filter_eq_self.2]
    intro o ho
    rw [Option.isNone_iff_eq_none, Keyed.find?_eq_none_iff]
    exact fun x hx heq => h .tapKeyOrigin o.key ⟨o, ho, rfl⟩ ⟨x, hx, heq⟩
  rw [join, combine, hkeys, htaps]

theorem Has.of_single (h : r.Has type key) (hs : type.isSingle) (k : Bytes) : r.Has type k := by
  cases type with
  | redeemScript | witnessScript | tapInternalKey | tapTree => exact h
  | keyOrigin | tapKeyOrigin => cases hs

variable [Script σ] {value : Bytes}

/-- What one more field makes a record have. -/
theorem Puts.has_iff (h : r.Puts key value type d) (t : FieldType) (k : Bytes) :
    d.Has t k ↔ r.Has t k ∨ t = type ∧ (type.isSingle ∨ key = k) := by
  cases h with
  | redeemScript | witnessScript | tapInternalKey | tapTree =>
    cases t <;> simp [Has, FieldType.isSingle]
  | keyOrigin hkey | tapKeyOrigin hkey =>
    cases t <;> simp [Has, FieldType.isSingle, hkey]

end

/-! ### Field by field -/

section
variable {σ : Type} [Script σ] {r : Output σ} {d₀ d : Output Bytes} {type : FieldType}
  {key value : Bytes} {f : Field} {fs : List Field}

theorem Puts.join (h : d₀.Puts key value type d) (r : Output σ) :
    (r.join (d₀.map Script.ofBytes)).Puts key value type (r.join (d.map Script.ofBytes)) := by
  cases h with
  | redeemScript => exact .redeemScript
  | witnessScript => exact .witnessScript
  | tapInternalKey => exact .tapInternalKey
  | tapTree => exact .tapTree
  | keyOrigin hkey hpack hpath =>
    simp only [Output.join, map, ← List.append_assoc]
    exact .keyOrigin hkey hpack hpath
  | tapKeyOrigin hkey hpack hpath hcount =>
    simp only [Output.join, map, ← List.append_assoc]
    exact .tapKeyOrigin hkey hpack hpath hcount

/-- A field that is new to both records is stored behind the one in front. -/
theorem store_join_of_not_has (hc : f.code = type.code) (h : d₀.store f = .ok d)
    (hr : r.Apart d₀) (hnew : ¬ r.Has type f.key) :
    r.Apart d ∧
      (r.join (d₀.map Script.ofBytes)).store f = .ok (r.join (d.map Script.ofBytes)) := by
  obtain ⟨hk, hv, hnew₀, hput⟩ := (store_eq_ok_iff hc).1 h
  refine ⟨fun t k hrk hdk => ?_, (store_eq_ok_iff hc).2 ⟨hk, hv, ?_, hput.join r⟩⟩
  · obtain hdk | ⟨rfl, hs | rfl⟩ := (hput.has_iff t k).1 hdk
    · exact hr t k hrk hdk
    · exact hnew (hrk.of_single hs f.key)
    · exact hnew hrk
  · rw [has_join, has_map]
    exact not_or.2 ⟨hnew, hnew₀⟩

/-- A field that the record in front has already is a duplicate. -/
theorem store_join_of_has (hc : f.code = type.code) (h : d₀.store f = .ok d)
    (hhas : r.Has type f.key) :
    d.Has type f.key ∧ ∃ fault,
      (r.join (d₀.map Script.ofBytes)).store f = .error fault ∧ fault.kind = .duplicate := by
  obtain ⟨hk, hv, -, hput⟩ := (store_eq_ok_iff hc).1 h
  refine ⟨(hput.has_iff type f.key).2 (.inr ⟨rfl, .inr rfl⟩), ?_⟩
  have hjoin : (r.join (d₀.map Script.ofBytes)).Has type f.key := has_join.2 (.inl hhas)
  by_cases hs : type.isSingle
  · exact ⟨_, store_of_isSet hc hs hjoin, rfl⟩
  · exact ⟨_, store_of_keyTaken hc hs hk hv hjoin, rfl⟩

theorem exists_type_of_store {r' : Output σ} (h : r.store f = .ok r') :
    ∃ type : FieldType, f.code = type.code := by
  rcases htype : FieldType.ofCode? f.code with _ | type
  · rw [store, htype] at h
    cases h
  · exact ⟨type, FieldType.ofCode?_eq_some_iff.1 htype⟩

/-- What a record has it keeps. -/
theorem Has.of_foldlM_store {r' : Output σ} (h : r.Has type key)
    (hfold : fs.foldlM store r = .ok r') : r'.Has type key := by
  refine foldlM_keeps (P := fun r : Output σ => r.Has type key) (fun r₁ g r₂ h₁ hg => ?_) h hfold
  obtain ⟨t, hc⟩ := exists_type_of_store hg
  obtain ⟨-, -, -, hput⟩ := (store_eq_ok_iff hc).1 hg
  exact (hput.has_iff type key).2 (.inl h₁)

theorem foldlM_store_join (h : fs.foldlM store d₀ = .ok d) (hr : r.Apart d₀) :
    (r.Apart d → fs.foldlM store (r.join (d₀.map Script.ofBytes)) =
      .ok (r.join (d.map Script.ofBytes))) ∧
    (¬ r.Apart d → ∃ fault, fs.foldlM store (r.join (d₀.map Script.ofBytes)) = .error fault ∧
      fault.kind = .duplicate) := by
  -- the fields so far are in the record behind, which has nothing in common with that in front
  induction fs generalizing d₀ with
  | nil =>
    cases h
    exact ⟨fun _ => rfl, fun hnot => absurd hr hnot⟩
  | cons f fs ih =>
    rw [List.foldlM_cons] at h ⊢
    obtain ⟨d₁, hd₁, hd⟩ := bind_eq_ok_iff.1 h
    obtain ⟨type, hc⟩ := exists_type_of_store hd₁
    by_cases hhas : r.Has type f.key
    · obtain ⟨hd₁has, fault, hfault, hkind⟩ := store_join_of_has hc hd₁ hhas
      have hnot : ¬ r.Apart d := fun hap => hap type f.key hhas (hd₁has.of_foldlM_store hd)
      refine ⟨fun hap => absurd hap hnot, fun _ => ⟨fault, ?_, hkind⟩⟩
      rw [hfault]
      rfl
    · obtain ⟨hr₁, hstore⟩ := store_join_of_not_has hc hd₁ hr hhas
      rw [hstore]
      exact ih hd hr₁

end

/-! ### Decoding into a record -/

theorem apart_empty {σ τ : Type} (r : Output σ) : r.Apart ({} : Output τ) := by
  intro type key _ h
  cases type <;> simp [Has] at h

section
variable {σ : Type} [Script σ] {s : Settings} {maxValue : Value} {K V : Int}

/-- Reading a map into a record agrees with reading it alone and combining. If the map makes a
record that has no single field and no key in common with the one that is there, reading leads to
their combination, down to the order of the origins; otherwise it fails at a duplicate. -/
theorem decodeInto_of_decode (hK : K < Value.sizeBound) (hV : V < Value.sizeBound)
    (hs : s.Allows maxValue K V) {raw : Bytes} {d : Output Bytes}
    (hd : (decode s maxValue (.bytes raw)).1 = .ok d) (r : Output σ) :
    let decoded := decodeInto s maxValue r (.ofBytes raw)
    (r.Apart d → decoded.outcome = .ok () ∧
      decoded.progress.state = r.combine (d.map Script.ofBytes)) ∧
    (¬ r.Apart d → ∃ fault, decoded.outcome = .error fault ∧ fault.kind = .duplicate) := by
  intro decoded
  have hwf : (d.map (Script.ofBytes (σ := σ))).WellFormed := wellFormed_map_iff.2 (.decode hd)
  rw [decode_of_allows hs] at hd
  obtain ⟨fs, rfl, hfits, hfold⟩ := (ofBytes_eq_ok_iff hK hV).1 hd
  obtain ⟨houtcome, hprogress⟩ := decodeInto_of_allows hs r (.ofBytes (FieldMap.encode fs))
  obtain ⟨hapart, hnot⟩ := foldlM_store_join hfold (apart_empty r)
  have hstart : r.join (({} : Output Bytes).map Script.ofBytes) = r := join_empty r
  rw [hstart] at hapart hnot
  have hrest := (Stream.rest_ofBytes (FieldMap.encode fs)).trans (List.append_nil _).symm
  let start : Progress (Output σ) := { state := r, stream := .ofBytes (FieldMap.encode fs) }
  refine ⟨fun h => ?_, fun h => ?_⟩
  · obtain ⟨t, -, hp⟩ := FieldMap.complete_populate hK hV hfits (p := start)
      (Stream.plain_ofBytes _) hrest (hapart h)
    rw [populate, hp] at houtcome hprogress
    refine ⟨houtcome, ?_⟩
    have hjoin : r.Apart (d.map (Script.ofBytes (σ := σ))) := fun type key hr hd =>
      h type key hr (has_map.1 hd)
    rw [← hjoin.join_eq hwf]
    exact congrArg Progress.state hprogress
  · obtain ⟨fault, hfault, hkind⟩ := hnot h
    obtain ⟨q, hp⟩ := FieldMap.populate_of_refused hK hV hfits (p := start)
      (Stream.plain_ofBytes _) hrest hfault
    rw [populate, hp] at houtcome
    exact ⟨fault, houtcome, hkind⟩

end

/-- A map is read into a record that has another script, but not into one that has the same. -/
theorem decodeInto_of_decode_unorderedFields :
    let raw := FieldMap.encode unorderedFields
    let mine : Output Value := { witnessScript := some (.float .nan) }
    let taken : Output Value := { redeemScript := some (.bytes []) }
    ∃ d, (decode .builtIn (.int 37) (.bytes raw)).1 = .ok d ∧
      (decodeInto .builtIn (.int 37) mine (.ofBytes raw)).outcome = .ok () ∧
      (decodeInto .builtIn (.int 37) mine (.ofBytes raw)).progress.state =
        mine.combine (d.map Value.bytes) ∧
      ∃ fault, (decodeInto .builtIn (.int 37) taken (.ofBytes raw)).outcome = .error fault ∧
        fault.kind = .duplicate := by
  intro raw mine taken
  have hK : (10000 : Int) < Value.sizeBound := by decide
  have hV : (37 : Int) < Value.sizeBound := by decide
  obtain ⟨d, hraw, hholds⟩ := admissible_unorderedFields.exists_ofBytes hK hV
  have hd := (decode_of_allows allows_builtIn raw).trans hraw
  have hwitness : d.witnessScript = none := single_inj (hholds.fieldsOf_eq .witnessScript)
  have hredeem : d.redeemScript = some [0x51] := single_inj (hholds.fieldsOf_eq .redeemScript)
  have hmine : mine.Apart d := by
    intro type key h
    cases type <;> simp [Has, mine] at h
    simp [Has, hwitness]
  have htaken : ¬ taken.Apart d := fun h => h .redeemScript [] rfl (by rw [Has, hredeem]; rfl)
  obtain ⟨hok, hstate⟩ := (decodeInto_of_decode hK hV allows_builtIn hd mine).1 hmine
  exact ⟨d, hd, hok, hstate, (decodeInto_of_decode hK hV allows_builtIn hd taken).2 htaken⟩

end PartialTx.Output
