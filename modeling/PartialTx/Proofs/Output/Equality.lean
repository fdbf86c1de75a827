import PartialTx.Output.View
import PartialTx.Proofs.Bytes.Hex
import PartialTx.Proofs.KeyPath.Text
import PartialTx.Proofs.Origin.Lookup
import PartialTx.Proofs.Output.RoundTrip

/-! When records are equal. They are if they have equal fields and the same origins in
whatever order. For records of byte strings without flags in their paths this is to be
written as the same bytes, and to look the same as a plain value. -/

namespace PartialTx

/-- Lists are equal if the same counts of their entries. -/
theorem beq_iff_map_eq {α β : Type} [BEq α] {g : α → β}
    (hg : ∀ a b, (a == b) = true ↔ g a = g b) {as bs : List α} :
    (as == bs) = true ↔ as.map g = bs.map g := by
  refine ⟨fun h => ?_, beq_of_map_eq fun a _ b => (hg a b).2⟩
  induction as generalizing bs with
  | nil =>
    rcases bs with _ | ⟨b, bs⟩
    · rfl
    · cases h
  | cons a as ih =>
    rcases bs with _ | ⟨b, bs⟩
    · cases h
    · obtain ⟨hab, hrest⟩ := Bool.and_eq_true_iff.1 h
      rw [List.map_cons, List.map_cons, (hg a b).1 hab, ih hrest]

/-- Where one image of the entries tells another, so it does for the lists. -/
theorem map_eq_of_map_eq {α β γ : Type} {f : α → β} {g : α → γ} {as bs : List α}
    (hfg : ∀ a ∈ as, ∀ b ∈ bs, f a = f b → g a = g b) (h : as.map f = bs.map f) :
    as.map g = bs.map g := by
  induction as generalizing bs with
  | nil => rw [List.map_eq_nil_iff.1 h.symm]
  | cons a as ih =>
    rcases bs with _ | ⟨b, bs⟩
    · cases h
    · obtain ⟨hab, hrest⟩ := List.cons.inj h
      rw [List.map_cons, List.map_cons, hfg a List.mem_cons_self b List.mem_cons_self hab,
        ih (fun a ha b hb => hfg a (List.mem_cons_of_mem _ ha) b (List.mem_cons_of_mem _ hb)) hrest]

theorem Text.ofString_inj {s t : String} (h : ofString s = ofString t) : s = t := by
  have htext := congrArg Text.toString h
  rwa [toString_ofString, toString_ofString] at htext

theorem KeyPath.Unflagged.numbers_inj {p q : KeyPath} (hp : Unflagged p) (hq : Unflagged q)
    (h : p.numbers = q.numbers) : p = q := by
  rw [hp, hq, h]

theorem KeyPath.Unflagged.toText_inj {p q : KeyPath} (hp : Unflagged p) (hq : Unflagged q)
    (h : toText usualMark p = toText usualMark q) : p = q := by
  rw [hp, hq] at h
  rw [hp, hq, KeyPath.toText_inj (by decide) h]

/-! ### Origins -/

namespace KeyOrigin

variable {o o' : KeyOrigin}

theorem beq_iff : (o == o') = true ↔ o.parts = o'.parts := by
  show (o.parts == o'.parts) = true ↔ _
  exact beq_iff_eq

theorem key_eq_of_parts (o o' : KeyOrigin) (h : o.parts = o'.parts) :
    Keyed.key o = Keyed.key o' :=
  (Prod.mk.inj h).1

/-- What counts of an origin is what its field tells. -/
theorem field_eq_of_parts (h : o.parts = o'.parts) :
    Output.ofKeyOrigin o = Output.ofKeyOrigin o' := by
  simp only [parts, Prod.mk.injEq] at h
  rw [Output.ofKeyOrigin, Output.ofKeyOrigin, pack, pack, h.1, h.2.1, h.2.2]

theorem eq_of_parts (ho : KeyPath.Unflagged o.path) (ho' : KeyPath.Unflagged o'.path)
    (h : o.parts = o'.parts) : o = o' := by
  obtain ⟨key, fingerprint, path, _, _⟩ := o
  obtain ⟨key', fingerprint', path', _, _⟩ := o'
  simp only [parts, Prod.mk.injEq] at h
  obtain ⟨rfl, rfl, hp⟩ := h
  cases ho.numbers_inj ho' hp
  rfl

theorem eq_of_toValue (ho : KeyPath.Unflagged o.path) (ho' : KeyPath.Unflagged o'.path)
    (h : o.toValue = o'.toValue) : o = o' := by
  simp only [toValue, Value.object.injEq, List.cons.injEq, Prod.mk.injEq, Value.text.injEq,
    true_and, and_true] at h
  obtain ⟨hk, hf, hp⟩ := h
  refine eq_of_parts ho ho' ?_
  rw [parts, parts, Bytes.hex_inj (Text.ofString_inj hk), Bytes.hex_inj (Text.ofString_inj hf),
    ho.toText_inj ho' hp]

end KeyOrigin

namespace TapOrigin

variable {o o' : TapOrigin}

theorem beq_iff : (o == o') = true ↔ o.parts = o'.parts := by
  show (o.parts == o'.parts) = true ↔ _
  exact beq_iff_eq

theorem key_eq_of_parts (o o' : TapOrigin) (h : o.parts = o'.parts) :
    Keyed.key o = Keyed.key o' :=
  (Prod.mk.inj h).1

theorem field_eq_of_parts (h : o.parts = o'.parts) :
    Output.ofTapOrigin o = Output.ofTapOrigin o' := by
  simp only [parts, Prod.mk.injEq] at h
  rw [Output.ofTapOrigin, Output.ofTapOrigin, pack, pack, h.1, h.2.1, h.2.2.1, h.2.2.2]

theorem eq_of_parts (ho : KeyPath.Unflagged o.path) (ho' : KeyPath.Unflagged o'.path)
    (h : o.parts = o'.parts) : o = o' := by
  obtain ⟨key, leafHashes, fingerprint, path, _, _, _⟩ := o
  obtain ⟨key', leafHashes', fingerprint', path', _, _, _⟩ := o'
  simp only [parts, Prod.mk.injEq] at h
  obtain ⟨rfl, rfl, rfl, hp⟩ := h
  cases ho.numbers_inj ho' hp
  rfl

theorem eq_of_toValue (ho : KeyPath.Unflagged o.path) (ho' : KeyPath.Unflagged o'.path)
    (h : o.toValue = o'.toValue) : o = o' := by
  simp only [toValue, Value.object.injEq, List.cons.injEq, Prod.mk.injEq, Value.text.injEq,
    Value.list.injEq, true_and, and_true] at h
  obtain ⟨hk, hl, hf, hp⟩ := h
  have hhash (a b : Bytes) (hab : Value.text a.hex = Value.text b.hex) : a = b :=
    Bytes.hex_inj (Text.ofString_inj (Value.text.inj hab))
  refine eq_of_parts ho ho' ?_
  rw [parts, parts, Bytes.hex_inj (Text.ofString_inj hk), List.map_inj_right hhash |>.1 hl,
    Bytes.hex_inj (Text.ofString_inj hf), ho.toText_inj ho' hp]

end TapOrigin

namespace FieldMap

/-- A field is no longer than the map in which it is written. -/
theorem length_le_encode {fs : List Field} {f : Field} (hf : f ∈ fs) :
    f.key.length ≤ (encode fs).length ∧ f.value.length ≤ (encode fs).length := by
  have hsub : (f.encode).Sublist (body fs) := by
    rw [body, List.flatMap_def]
    exact List.sublist_flatten_of_mem (List.mem_map_of_mem hf)
  have hle := hsub.length_le
  rw [Field.encode_eq] at hle
  simp only [List.length_cons, List.length_append, Field.sized] at hle
  rw [encode_eq, List.length_append]
  omega

end FieldMap

namespace Output

section
variable {σ : Type} [BEq σ] {a b : Output σ}

/-- Records are equal if their fields are and the same counts of their sorted origins. -/
theorem beq_iff_sort : (a == b) = true ↔
    ((a.redeemScript == b.redeemScript) = true ∧ (a.witnessScript == b.witnessScript) = true ∧
      a.tapInternalKey = b.tapInternalKey ∧ (a.tapTree == b.tapTree) = true) ∧
    (Keyed.sort a.keyOrigins).map KeyOrigin.parts =
      (Keyed.sort b.keyOrigins).map KeyOrigin.parts ∧
    (Keyed.sort a.tapOrigins).map TapOrigin.parts =
      (Keyed.sort b.tapOrigins).map TapOrigin.parts := by
  rw [← beq_iff_map_eq fun _ _ => KeyOrigin.beq_iff, ← beq_iff_map_eq fun _ _ => TapOrigin.beq_iff,
    ← TapOrigin.sort_eq, ← TapOrigin.sort_eq, ← beq_iff_eq (a := a.tapInternalKey)]
  show (a.redeemScript == b.redeemScript && a.witnessScript == b.witnessScript
    && Keyed.sort a.keyOrigins == Keyed.sort b.keyOrigins
    && a.tapInternalKey == b.tapInternalKey && a.tapTree == b.tapTree
    && TapOrigin.sort a.tapOrigins == TapOrigin.sort b.tapOrigins) = true ↔ _
  simp only [Bool.and_eq_true]
  tauto

/-- Well-formed records are equal if their fields are and the same counts of their origins, in
whatever order. -/
theorem beq_iff_perm (ha : a.WellFormed) (hb : b.WellFormed) : (a == b) = true ↔
    ((a.redeemScript == b.redeemScript) = true ∧ (a.witnessScript == b.witnessScript) = true ∧
      a.tapInternalKey = b.tapInternalKey ∧ (a.tapTree == b.tapTree) = true) ∧
    (a.keyOrigins.map KeyOrigin.parts).Perm (b.keyOrigins.map KeyOrigin.parts) ∧
    (a.tapOrigins.map TapOrigin.parts).Perm (b.tapOrigins.map TapOrigin.parts) := by
  rw [beq_iff_sort, Keyed.map_sort_eq_iff KeyOrigin.key_eq_of_parts ha.keyOrigins_distinct
      hb.keyOrigins_distinct, Keyed.map_sort_eq_iff TapOrigin.key_eq_of_parts
      ha.tapOrigins_distinct hb.tapOrigins_distinct]

end

/-! ### Records of byte strings -/

theorem viewText_hex_inj {x y : Option Bytes}
    (h : viewText (x.map Bytes.hex) = viewText (y.map Bytes.hex)) : x = y := by
  rcases x with _ | x <;> rcases y with _ | y
  · rfl
  · cases h
  · cases h
  · rw [Bytes.hex_inj (Text.ofString_inj (Value.text.inj h))]

theorem isEmpty_iff {σ : Type} {r : Output σ} : r.isEmpty = true ↔ r = {} := by
  obtain ⟨redeemScript, witnessScript, keyOrigins, tapInternalKey, tapTree, tapOrigins⟩ := r
  simp [isEmpty, and_assoc]

theorem toBytes_empty : ({} : Output Bytes).toBytes = [Field.separator] := by
  simp [toBytes, fields, single, TapOrigin.sort_eq, Keyed.sort, FieldMap.encode_eq, FieldMap.body]

section
variable {a b : Output Bytes}

theorem beq_iff_fields_eq (hlen : ∀ f ∈ a.fields, f.value.length < Bytes.wordCount 8) :
    (a == b) = true ↔ a.fields = b.fields := by
  simp only [beq_iff_sort, beq_iff_eq]
  constructor
  · rintro ⟨⟨hr, hw, hi, ht⟩, hkeys, htaps⟩
    have hk := map_eq_of_map_eq (g := ofKeyOrigin)
      (fun _ _ _ _ => KeyOrigin.field_eq_of_parts) hkeys
    have ht' := map_eq_of_map_eq (g := ofTapOrigin)
      (fun _ _ _ _ => TapOrigin.field_eq_of_parts) htaps
    rw [fields, fields, hr, hw, hi, ht, hk, TapOrigin.sort_eq, TapOrigin.sort_eq, ht']
  · intro h
    have hof (type : FieldType) : a.ordered.fieldsOf type = b.ordered.fieldsOf type := by
      rw [← ofType_fields, ← ofType_fields, h]
    refine ⟨⟨single_inj (hof .redeemScript), single_inj (hof .witnessScript),
      single_inj (hof .tapInternalKey), single_inj (hof .tapTree)⟩, ?_, ?_⟩
    · refine map_eq_of_map_eq (fun o _ o' _ heq => ?_) (hof .keyOrigin)
      exact KeyOrigin.parts_eq_of_pack_eq (congrArg Field.key heq) (congrArg Field.value heq)
    · rw [← TapOrigin.sort_eq, ← TapOrigin.sort_eq]
      refine map_eq_of_map_eq (fun o ho o' _ heq => ?_) (hof .tapKeyOrigin)
      have hmem : ofTapOrigin o ∈ a.fields := by
        rw [fields_eq]
        exact List.mem_flatMap.2 ⟨.tapKeyOrigin, FieldType.mem_all _, List.mem_map_of_mem ho⟩
      exact TapOrigin.parts_eq_of_pack_eq (hlen _ hmem) (congrArg Field.key heq)
        (congrArg Field.value heq)

/-- Well-formed records are equal exactly if they are written as the same bytes. -/
theorem beq_iff_toBytes_eq (ha : a.WellFormed) (hb : b.WellFormed)
    (hlen : a.toBytes.length < Value.sizeBound) :
    (a == b) = true ↔ a.toBytes = b.toBytes := by
  have hbound : (Value.sizeBound - 1 : Int) < Value.sizeBound := by decide
  have hfits {r : Output Bytes} (hr : r.WellFormed) (hlen : r.toBytes.length < Value.sizeBound) :
      ∀ f ∈ r.fields, f.Fits (Value.sizeBound - 1) (Value.sizeBound - 1) :=
    hr.fits_iff.2 fun f hf => by
      have hle := FieldMap.length_le_encode hf
      rw [toBytes] at hlen
      omega
  rw [beq_iff_fields_eq (value_lt_of_fits hbound (hfits ha hlen))]
  refine ⟨fun h => by rw [toBytes, toBytes, h], fun h => ?_⟩
  exact FieldMap.encode_inj hbound hbound (hfits ha hlen) (hfits hb (h ▸ hlen)) h

/-- Records come to the same when their origins are put in order exactly if they have equal
fields and the same origins in whatever order. -/
theorem ordered_eq_iff (ha : a.WellFormed) (hb : b.WellFormed) : a.ordered = b.ordered ↔
    (a.redeemScript = b.redeemScript ∧ a.witnessScript = b.witnessScript ∧
      a.tapInternalKey = b.tapInternalKey ∧ a.tapTree = b.tapTree) ∧
    a.keyOrigins.Perm b.keyOrigins ∧ a.tapOrigins.Perm b.tapOrigins := by
  rw [← Keyed.sort_eq_iff ha.keyOrigins_distinct hb.keyOrigins_distinct,
    ← Keyed.sort_eq_iff ha.tapOrigins_distinct hb.tapOrigins_distinct]
  simp only [ordered, TapOrigin.sort_eq, mk.injEq]
  tauto

section
variable (ha : a.Unflagged) (hb : b.Unflagged)
include ha hb

theorem Unflagged.of_mem_sort :
    (∀ o ∈ Keyed.sort a.keyOrigins, ∀ o' ∈ Keyed.sort b.keyOrigins,
      KeyPath.Unflagged o.path ∧ KeyPath.Unflagged o'.path) ∧
    ∀ o ∈ Keyed.sort a.tapOrigins, ∀ o' ∈ Keyed.sort b.tapOrigins,
      KeyPath.Unflagged o.path ∧ KeyPath.Unflagged o'.path := by
  have hmem {α : Type} [Keyed α] {es : List α} {e : α} (he : e ∈ Keyed.sort es) : e ∈ es :=
    (Keyed.perm_sort es).mem_iff.1 he
  exact ⟨fun o ho o' ho' => ⟨ha.keyOrigins o (hmem ho), hb.keyOrigins o' (hmem ho')⟩,
    fun o ho o' ho' => ⟨ha.tapOrigins o (hmem ho), hb.tapOrigins o' (hmem ho')⟩⟩

theorem beq_iff_ordered_eq : (a == b) = true ↔ a.ordered = b.ordered := by
  obtain ⟨hkeys, htaps⟩ := ha.of_mem_sort hb
  simp only [beq_iff_sort, beq_iff_eq, ordered, TapOrigin.sort_eq, mk.injEq]
  constructor
  · rintro ⟨⟨hr, hw, hi, ht⟩, hk, hto⟩
    have hk := map_eq_of_map_eq (g := id) (fun o ho o' ho' =>
      KeyOrigin.eq_of_parts (hkeys o ho o' ho').1 (hkeys o ho o' ho').2) hk
    have hto := map_eq_of_map_eq (g := id) (fun o ho o' ho' =>
      TapOrigin.eq_of_parts (htaps o ho o' ho').1 (htaps o ho o' ho').2) hto
    rw [List.map_id, List.map_id] at hk hto
    exact ⟨hr, hw, hk, hi, ht, hto⟩
  · rintro ⟨hr, hw, hk, hi, ht, hto⟩
    rw [hk, hto]
    exact ⟨⟨hr, hw, hi, ht⟩, rfl, rfl⟩

/-- Records look the same as plain values exactly if they are the same in order. -/
theorem toValue_eq_iff : a.toValue = b.toValue ↔ a.ordered = b.ordered := by
  obtain ⟨hkeys, htaps⟩ := ha.of_mem_sort hb
  simp only [toValue, view, map, ordered, TapOrigin.sort_eq, mk.injEq, Value.object.injEq,
    List.cons.injEq, Prod.mk.injEq, Value.list.injEq, true_and, and_true]
  constructor
  · rintro ⟨hr, hw, hk, hi, ht, hto⟩
    have hk := map_eq_of_map_eq (g := id) (fun o ho o' ho' =>
      KeyOrigin.eq_of_toValue (hkeys o ho o' ho').1 (hkeys o ho o' ho').2) hk
    have hto := map_eq_of_map_eq (g := id) (fun o ho o' ho' =>
      TapOrigin.eq_of_toValue (htaps o ho o' ho').1 (htaps o ho o' ho').2) hto
    rw [List.map_id, List.map_id] at hk hto
    exact ⟨viewText_hex_inj hr, viewText_hex_inj hw, hk, viewText_hex_inj hi, viewText_hex_inj ht,
      hto⟩
  · rintro ⟨hr, hw, hk, hi, ht, hto⟩
    rw [hr, hw, hk, hi, ht, hto]
    exact ⟨rfl, rfl, rfl, rfl, rfl, rfl⟩

end

/-- For records of byte strings without flags that runs come to, to be equal is to have equal
fields and the same origins in whatever order, to be written as the same bytes, where these are
no more than a byte string can hold, and to look the same. An empty record is one that equals the
new one, and one written as the separator alone. -/
theorem beq_iff_of_reachable (ha : a.ReachableBytes) (hb : b.ReachableBytes) (hau : a.Unflagged)
    (hbu : b.Unflagged) :
    ((a == b) = true ↔
      (a.redeemScript = b.redeemScript ∧ a.witnessScript = b.witnessScript ∧
        a.tapInternalKey = b.tapInternalKey ∧ a.tapTree = b.tapTree) ∧
      a.keyOrigins.Perm b.keyOrigins ∧ a.tapOrigins.Perm b.tapOrigins) ∧
    (a.toBytes.length < Value.sizeBound → ((a == b) = true ↔ a.toBytes = b.toBytes)) ∧
    ((a == b) = true ↔ a.toValue = b.toValue) ∧
    (a.isEmpty = true ↔ (a == {}) = true) ∧ (a.isEmpty = true ↔ a.toBytes = [Field.separator]) := by
  have hempty : a.isEmpty = true ↔ (a == {}) = true := by
    rw [isEmpty_iff, beq_iff_ordered_eq hau unflagged_empty,
      ordered_eq_iff ha.wellFormed wellFormed_empty]
    obtain ⟨redeemScript, witnessScript, keyOrigins, tapInternalKey, tapTree, tapOrigins⟩ := a
    simp only [mk.injEq, List.perm_nil]
    tauto
  refine ⟨?_, beq_iff_toBytes_eq ha.wellFormed hb.wellFormed, ?_, hempty, ?_⟩
  · rw [beq_iff_ordered_eq hau hbu, ordered_eq_iff ha.wellFormed hb.wellFormed]
  · rw [beq_iff_ordered_eq hau hbu, toValue_eq_iff hau hbu]
  · rw [← toBytes_empty]
    refine ⟨fun h => by rw [isEmpty_iff.1 h], fun h => ?_⟩
    have hlen : a.toBytes.length < Value.sizeBound := by rw [h, toBytes_empty]; decide
    exact hempty.2 ((beq_iff_toBytes_eq ha.wellFormed wellFormed_empty hlen).2 h)

end

/-- Two origins in ascending order, one for a hardened path. -/
def ascending : Output Bytes where
  witnessScript := some []
  keyOrigins := [⟨2 :: List.replicate 32 9, [5, 6, 7, 8], [], rfl, rfl⟩,
    ⟨3 :: List.replicate 32 9, [5, 6, 7, 8], [.index 0x8000002c], rfl, rfl⟩]

/-- The same origins the other way round. -/
def descending : Output Bytes := { ascending with keyOrigins := ascending.keyOrigins.reverse }

theorem perm_descending : ascending.keyOrigins.Perm descending.keyOrigins :=
  (List.reverse_perm _).symm

theorem reachable_ascending : ascending.ReachableBytes := by
  refine (reachable_iff _).2 (wellFormed_map_iff.2 ⟨?_, Keyed.distinct_nil, nofun⟩)
  show (ascending.keyOrigins.map KeyOrigin.key).Nodup
  decide

theorem reachable_descending : descending.ReachableBytes :=
  have hdistinct := reachable_ascending.wellFormed.keyOrigins_distinct
  (reachable_iff _).2 (wellFormed_map_iff.2
    ⟨hdistinct.perm perm_descending, Keyed.distinct_nil, nofun⟩)

theorem beq_of_descending :
    (ascending == descending) = true ∧ ascending.toBytes = descending.toBytes ∧
      ascending.toValue = descending.toValue ∧ ascending.toBytes ≠ [Field.separator] := by
  have hunflagged : ∀ o ∈ ascending.keyOrigins, KeyPath.Unflagged o.path := by
    simp [ascending, KeyPath.Unflagged, KeyPath.ofNumbers, KeyPath.numbers, ChildIndex.number]
  have hkeys : Keyed.Ascending ascending.keyOrigins := by
    refine List.pairwise_pair.2 ?_
    decide
  have htaps : Keyed.Ascending ascending.tapOrigins := .nil
  have hordered : ascending.ordered = ascending := by
    rw [ordered, TapOrigin.sort_eq, Keyed.sort_eq_self hkeys, Keyed.sort_eq_self htaps]
  have hlen : ascending.toBytes.length < Value.sizeBound := by
    rw [toBytes, fields_eq, hordered]
    decide +kernel
  obtain ⟨hbeq, hbytes, hvalue, -, hempty⟩ := beq_iff_of_reachable reachable_ascending
    reachable_descending ⟨hunflagged, List.forall_mem_nil _⟩
    ⟨fun o ho => hunflagged o (perm_descending.mem_iff.2 ho), List.forall_mem_nil _⟩
  have heq := hbeq.2 ⟨⟨rfl, rfl, rfl, rfl⟩, perm_descending, .refl _⟩
  exact ⟨heq, (hbytes hlen).1 heq, hvalue.1 heq, fun h => absurd (hempty.2 h) (by decide)⟩

end Output

end PartialTx
