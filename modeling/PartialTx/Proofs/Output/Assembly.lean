import PartialTx.Proofs.Output.Combination
import PartialTx.Proofs.Output.Rearrangement
import PartialTx.Proofs.Output.Storing

/-! Ways of filling a record. The parts of a record can be put together, or written as fields
and decoded; an origin can be added, or stored as its field. All ways fail alike, and where
they succeed the records have the same single fields, and equal origins in the same order:
what is lost on the way through a field is only which numbers of a path were flags. -/

namespace PartialTx.Output

open FieldMap (ofType)

/-! ### Records that are alike -/

/-- The same single fields, and equal origins in the same order. -/
structure Alike {σ : Type} (a b : Output σ) : Prop where
  redeemScript : a.redeemScript = b.redeemScript
  witnessScript : a.witnessScript = b.witnessScript
  keyOrigins : (a.keyOrigins == b.keyOrigins) = true
  tapInternalKey : a.tapInternalKey = b.tapInternalKey
  tapTree : a.tapTree = b.tapTree
  tapOrigins : (a.tapOrigins == b.tapOrigins) = true

/-- What stands as a script or a tree in a record. -/
def HasScript {σ : Type} (r : Output σ) (v : σ) : Prop :=
  r.redeemScript = some v ∨ r.witnessScript = some v ∨ r.tapTree = some v

theorem beq_keyOrigins_iff {os os' : List KeyOrigin} :
    (os == os') = true ↔ os.map KeyOrigin.parts = os'.map KeyOrigin.parts :=
  beq_iff_map_eq fun _ _ => KeyOrigin.beq_iff

theorem beq_tapOrigins_iff {os os' : List TapOrigin} :
    (os == os') = true ↔ os.map TapOrigin.parts = os'.map TapOrigin.parts :=
  beq_iff_map_eq fun _ _ => TapOrigin.beq_iff

theorem beq_option_self_iff {α : Type} [BEq α] {x : Option α} :
    (x == x) = true ↔ ∀ v, x = some v → (v == v) = true := by
  cases x <;> simp

/-- Well-formed records that are alike are equal exactly if their scripts are equal to
themselves. -/
theorem Alike.beq_iff {σ : Type} [BEq σ] {a b : Output σ} (h : a.Alike b) (ha : a.WellFormed)
    (hb : b.WellFormed) : (a == b) = true ↔ ∀ v, a.HasScript v → (v == v) = true := by
  rw [beq_iff_perm ha hb, ← h.redeemScript, ← h.witnessScript, ← h.tapTree,
    beq_keyOrigins_iff.1 h.keyOrigins, beq_tapOrigins_iff.1 h.tapOrigins]
  simp only [beq_option_self_iff, HasScript, h.tapInternalKey]
  constructor
  · rintro ⟨⟨hr, hw, -, ht⟩, -⟩ v (hv | hv | hv)
    exacts [hr v hv, hw v hv, ht v hv]
  · intro hv
    exact ⟨⟨fun v h => hv v (.inl h), fun v h => hv v (.inr (.inl h)), trivial,
      fun v h => hv v (.inr (.inr h))⟩, .refl _, .refl _⟩

/-- Records that are written as the same fields of each type are alike. -/
theorem Alike.of_fieldsOf {a b : Output Bytes} (h : ∀ type, a.fieldsOf type = b.fieldsOf type)
    (hlen : ∀ f ∈ a.fieldsOf .tapKeyOrigin, f.value.length < Bytes.wordCount 8) : a.Alike b where
  redeemScript := single_inj (h .redeemScript)
  witnessScript := single_inj (h .witnessScript)
  keyOrigins := beq_keyOrigins_iff.2 (map_eq_of_map_eq (fun _ _ _ _ heq =>
    KeyOrigin.parts_eq_of_pack_eq (congrArg Field.key heq) (congrArg Field.value heq))
    (h .keyOrigin))
  tapInternalKey := single_inj (h .tapInternalKey)
  tapTree := single_inj (h .tapTree)
  tapOrigins := beq_tapOrigins_iff.2 (map_eq_of_map_eq (fun o ho _ _ heq =>
    TapOrigin.parts_eq_of_pack_eq (hlen (ofTapOrigin o) (List.mem_map_of_mem ho))
      (congrArg Field.key heq) (congrArg Field.value heq)) (h .tapKeyOrigin))

/-! ### Parts put together -/

section
variable {σ : Type} {r : Output σ}

/-- Entries that are added one after another stand in their order. -/
theorem eq_of_foldlM {α : Type} {add : Output σ → α → Except Fault (Output σ)}
    (put : List α → Output σ)
    (hadd : ∀ done e r, add (put done) e = .ok r → r = put (done ++ [e])) {d es : List α}
    (h : es.foldlM add (put d) = .ok r) : r = put (d ++ es) := by
  induction es generalizing d with
  | nil =>
    cases h
    rw [List.append_nil]
  | cons e es ih =>
    rw [List.foldlM_cons] at h
    obtain ⟨r₁, hr₁, h⟩ := bind_eq_ok_iff.1 h
    rw [hadd d e r₁ hr₁] at h
    rw [ih h, ← List.append_cons]

/-- Parts can be put together exactly if they make a well-formed record. -/
theorem ofParts_eq_ok_iff {parts : Output σ} :
    ofParts parts.redeemScript parts.witnessScript parts.tapInternalKey parts.tapTree
      parts.keyOrigins parts.tapOrigins = .ok r ↔ parts.WellFormed ∧ r = parts := by
  refine ⟨fun h => ?_, fun ⟨hwf, hr⟩ => hr ▸ hwf.ofParts_eq⟩
  suffices hr : r = parts from ⟨hr ▸ .ofParts h, hr⟩
  obtain ⟨redeemScript, witnessScript, keyOrigins, tapInternalKey, tapTree, tapOrigins⟩ := parts
  have hadded (h : keyOrigins.foldlM addKeyOrigin
      (mk redeemScript witnessScript [] tapInternalKey tapTree []) >>=
        tapOrigins.foldlM addTapOrigin = .ok r) :
      r = mk redeemScript witnessScript keyOrigins tapInternalKey tapTree tapOrigins := by
    obtain ⟨r₁, hkeys, htaps⟩ := bind_eq_ok_iff.1 h
    have hr₁ := eq_of_foldlM
      (fun os : List KeyOrigin => mk redeemScript witnessScript os tapInternalKey tapTree [])
      (fun _ _ _ hadd => (addKeyOrigin_eq_ok_iff.1 hadd).2) (d := []) hkeys
    rw [hr₁] at htaps
    exact eq_of_foldlM (mk redeemScript witnessScript keyOrigins tapInternalKey tapTree)
      (fun _ _ _ hadd => (addTapOrigin_eq_ok_iff.1 hadd).2) (d := []) htaps
  unfold ofParts at h
  rcases tapInternalKey with _ | key
  · exact hadded h
  · dsimp only at h
    by_cases hk : Key.isXOnly key
    · rw [hk] at h
      exact hadded h
    · rw [Bool.eq_false_iff.2 hk] at h
      cases h

end

/-! ### Parts written as fields -/

/-- The parts are written as the fields: of each type there is what the parts have, in order. -/
structure WrittenAs (parts : Output Bytes) (fs : List Field) : Prop where
  code_eq : ∀ f ∈ fs, ∃ type : FieldType, f.code = type.code
  ofType_eq : ∀ type, ofType type fs = parts.fieldsOf type

/-- The fields of the parts by their types. -/
theorem writtenAs_flatMap (parts : Output Bytes) :
    parts.WrittenAs (FieldType.all.flatMap parts.fieldsOf) where
  code_eq := fun f hf => by
    obtain ⟨type, -, hf⟩ := List.mem_flatMap.1 hf
    exact ⟨type, code_of_mem_fieldsOf hf⟩
  ofType_eq := FieldMap.ofType_flatMap fun _ _ => code_of_mem_fieldsOf

section
variable {parts : Output Bytes} {fs : List Field} {K V : Int}

theorem WrittenAs.fits (h : parts.WrittenAs fs)
    (hlen : ∀ f ∈ fs, (f.key.length : Int) ≤ K ∧ (f.value.length : Int) ≤ V) :
    ∀ f ∈ fs, f.Fits K V := by
  intro f hf
  obtain ⟨type, hc⟩ := h.code_eq f hf
  exact ⟨hc ▸ type.code_ne_separator, (hlen f hf).1, (hlen f hf).2⟩

/-- The fields are those of a map exactly if the parts make a well-formed record. -/
theorem WrittenAs.admissible_iff (h : parts.WrittenAs fs)
    (hlen : ∀ f ∈ fs, (f.key.length : Int) ≤ K ∧ (f.value.length : Int) ≤ V) :
    Admissible K V fs ↔ parts.WellFormed := by
  have hof : (fun type => ofType type fs) = parts.fieldsOf := funext h.ofType_eq
  rw [wellFormed_iff, ← hof]
  constructor
  · exact fun hadm => ⟨hadm.keysDistinct, fun type f hf => hadm.formed.admits hf⟩
  · rintro ⟨hdistinct, hadmits⟩
    have hformed : FieldMap.Formed fs := by
      intro f hf
      obtain ⟨type, hc⟩ := h.code_eq f hf
      exact ⟨type, hc, hadmits type f (List.mem_filter.2 ⟨hf, beq_iff_eq.2 hc⟩)⟩
    exact ⟨fun f hf => (hlen f hf).1, fun f hf => (hlen f hf).2, hformed,
      fun type hs => (hformed.nodup_iff hs).1 (hdistinct type), fun type _ => hdistinct type⟩

/-- What is decoded of the fields is a record like the parts, if they make a well-formed one. -/
theorem WrittenAs.ofBytes_encode (hK : K < Value.sizeBound) (hV : V < Value.sizeBound)
    (h : parts.WrittenAs fs)
    (hlen : ∀ f ∈ fs, (f.key.length : Int) ≤ K ∧ (f.value.length : Int) ≤ V) :
    ((∃ r, ofBytes (.upTo K V) (FieldMap.encode fs) = .ok r) ↔ parts.WellFormed) ∧
      ∀ r, ofBytes (.upTo K V) (FieldMap.encode fs) = .ok r → r.Alike parts ∧ r.WellFormed := by
  have hfits := h.fits hlen
  obtain ⟨haccepts, hholds⟩ :=
    Output.ofBytes_encode hK hV fun f hf => (hfits f hf).encodable hK hV
  refine ⟨haccepts.trans (h.admissible_iff hlen), fun r hr => ⟨?_, ?_⟩⟩
  · refine .of_fieldsOf (fun type => ?_) fun f hf => ?_
    · rw [(hholds r hr).fieldsOf_eq, h.ofType_eq]
    · rw [(hholds r hr).fieldsOf_eq] at hf
      exact value_lt_of_fits hV hfits f (List.mem_filter.1 hf).1
  · exact (hholds r hr).wellFormed (haccepts.1 ⟨r, hr⟩)

end

/-! ### Origins added and stored -/

section
variable {σ : Type}

/-- Two ways of changing a record agree: both fail with the same fault, at a duplicate, or both
lead to records that are alike. -/
inductive Agree : Except Fault (Output σ) → Except Fault (Output σ) → Prop
  | fail {fault : Fault} (hkind : fault.kind = .duplicate) : Agree (.error fault) (.error fault)
  | succeed {a b : Output σ} (h : a.Alike b) : Agree (.ok a) (.ok b)

theorem Agree.exists_ok {a : Output σ} {y : Except Fault (Output σ)} (h : Agree (.ok a) y) :
    ∃ b, y = .ok b := by
  cases h with
  | succeed => exact ⟨_, rfl⟩

variable [Script σ]

theorem agree_addKeyOrigin (r : Output σ) (o : KeyOrigin) :
    Agree (r.addKeyOrigin o) (r.store (ofKeyOrigin o)) := by
  rw [store_ofKeyOrigin]
  by_cases h : ∃ x ∈ r.keyOrigins, x.key = o.key
  · have ho : r.addKeyOrigin o.unflagged = .error (.duplicateKey .keyOrigin o.key) :=
      addKeyOrigin_of_mem h
    rw [addKeyOrigin_of_mem h, ho]
    exact .fail rfl
  · have hnew : ∀ x ∈ r.keyOrigins, x.key ≠ o.key := fun x hx heq => h ⟨x, hx, heq⟩
    rw [addKeyOrigin_eq_ok_iff.2 ⟨hnew, rfl⟩,
      (addKeyOrigin_eq_ok_iff (o := o.unflagged)).2 ⟨hnew, rfl⟩]
    refine .succeed ⟨rfl, rfl, beq_keyOrigins_iff.2 ?_, rfl, rfl, beq_tapOrigins_iff.2 rfl⟩
    rw [List.map_append, List.map_append, List.map_singleton, List.map_singleton,
      KeyOrigin.parts_unflagged]

theorem agree_addTapOrigin (r : Output σ) {o : TapOrigin}
    (hcount : o.leafHashes.length < Bytes.wordCount 8) :
    Agree (r.addTapOrigin o) (r.store (ofTapOrigin o)) := by
  rw [store_ofTapOrigin r hcount]
  by_cases h : ∃ x ∈ r.tapOrigins, x.key = o.key
  · have ho : r.addTapOrigin o.unflagged = .error (.duplicateKey .tapKeyOrigin o.key) :=
      addTapOrigin_of_mem h
    rw [addTapOrigin_of_mem h, ho]
    exact .fail rfl
  · have hnew : ∀ x ∈ r.tapOrigins, x.key ≠ o.key := fun x hx heq => h ⟨x, hx, heq⟩
    rw [addTapOrigin_eq_ok_iff.2 ⟨hnew, rfl⟩,
      (addTapOrigin_eq_ok_iff (o := o.unflagged)).2 ⟨hnew, rfl⟩]
    refine .succeed ⟨rfl, rfl, beq_keyOrigins_iff.2 rfl, rfl, rfl, beq_tapOrigins_iff.2 ?_⟩
    rw [List.map_append, List.map_append, List.map_singleton, List.map_singleton,
      TapOrigin.parts_unflagged]

end

/-- Records that ways which agree lead to are equal exactly if their scripts are equal to
themselves. -/
theorem Agree.beq_iff {σ : Type} [BEq σ] {x y : Except Fault (Output σ)} {a b : Output σ}
    (h : Agree x y) (hx : x = .ok a) (hy : y = .ok b) (ha : a.WellFormed) (hb : b.WellFormed) :
    (a == b) = true ↔ ∀ v, a.HasScript v → (v == v) = true := by
  subst hx hy
  cases h with
  | succeed halike => exact halike.beq_iff ha hb

/-! ### All ways -/

/-- All ways of filling a record agree. Parts can be put together exactly if the map of their
fields can be decoded, and the records are equal, with their origins in the same order. Adding an
origin to a record that runs come to, whatever stands as a script in it, agrees with storing its
field, and the two records are equal exactly if each script and tree in them is equal to itself. -/
theorem ofParts_agrees_with_decode {σ : Type} [Script σ]
    {scriptOf : Value → Except Fault (Option σ)} (hscript : Script.KeepsBytes scriptOf)
    {s : Settings} {maxValue : Value} {K V : Int} (hK : K < Value.sizeBound)
    (hV : V < Value.sizeBound) (hs : s.Allows maxValue K V) :
    (∀ (parts : Output Bytes) (fs : List Field), parts.WrittenAs fs →
      (∀ f ∈ fs, (f.key.length : Int) ≤ K ∧ (f.value.length : Int) ≤ V) →
      let built := ofParts parts.redeemScript parts.witnessScript parts.tapInternalKey
        parts.tapTree parts.keyOrigins parts.tapOrigins
      let decoded := (decode s maxValue (.bytes (FieldMap.encode fs))).1
      ((∃ r, built = .ok r) ↔ ∃ r', decoded = .ok r') ∧
      ∀ r r', built = .ok r → decoded = .ok r' → r'.Alike r ∧ (r' == r) = true) ∧
    ∀ r : Output σ, Reachable scriptOf r →
      (∀ o : KeyOrigin,
        let added := r.addKeyOrigin o
        let stored := r.storeValuesWith scriptOf (.int 3) (.bytes o.key) (.bytes o.pack)
        Agree added stored ∧ ∀ a b, added = .ok a → stored = .ok b →
          ((a == b) = true ↔ ∀ v, r.HasScript v → (v == v) = true)) ∧
      ∀ o : TapOrigin, o.leafHashes.length < Bytes.wordCount 8 →
        let added := r.addTapOrigin o
        let stored := r.storeValuesWith scriptOf (.int 6) (.bytes o.key) (.bytes o.pack)
        Agree added stored ∧ ∀ a b, added = .ok a → stored = .ok b →
          ((a == b) = true ↔ ∀ v, r.HasScript v → (v == v) = true) := by
  refine ⟨fun parts fs hwritten hlen => ?_, fun r hr => ⟨fun o => ?_, fun o hcount => ?_⟩⟩
  · obtain ⟨haccepts, hdecoded⟩ := hwritten.ofBytes_encode hK hV hlen
    simp only [decode_of_allows hs, ofParts_eq_ok_iff, haccepts]
    refine ⟨⟨fun ⟨_, hwf, _⟩ => hwf, fun hwf => ⟨parts, hwf, rfl⟩⟩, fun r r' ⟨hwf, hr⟩ hr' => ?_⟩
    obtain ⟨halike, hwf'⟩ := hdecoded r' hr'
    rw [hr]
    exact ⟨halike, (halike.beq_iff hwf' hwf).2 fun v _ => beq_self_eq_true v⟩
  · have hwf := (reachable_iff _).1 hr
    have hagree : Agree (r.addKeyOrigin o)
        (r.storeValuesWith scriptOf (.int 3) (.bytes o.key) (.bytes o.pack)) :=
      storeValuesWith_bytes hscript r (ofKeyOrigin o) ▸ agree_addKeyOrigin r o
    refine ⟨hagree, fun a b ha hb => ?_⟩
    rw [hagree.beq_iff ha hb (hwf.addKeyOrigin ha) (hwf.storeValuesWith hb),
      (addKeyOrigin_eq_ok_iff.1 ha).2]
    rfl
  · have hwf := (reachable_iff _).1 hr
    have hagree : Agree (r.addTapOrigin o)
        (r.storeValuesWith scriptOf (.int 6) (.bytes o.key) (.bytes o.pack)) :=
      storeValuesWith_bytes hscript r (ofTapOrigin o) ▸ agree_addTapOrigin r hcount
    refine ⟨hagree, fun a b ha hb => ?_⟩
    rw [hagree.beq_iff ha hb (hwf.addTapOrigin ha) (hwf.storeValuesWith hb),
      (addTapOrigin_eq_ok_iff.1 ha).2]
    rfl

/-- Parts are decoded as an equal record, also where a path has a flag, and each origin in them is
stored as an equal one. -/
theorem ofParts_of_unordered :
    let fs := FieldType.all.flatMap unordered.fieldsOf
    (∃ r, (decode .builtIn (.int 37) (.bytes (FieldMap.encode fs))).1 = .ok r ∧
      (r.keyOrigins == unordered.keyOrigins) = true ∧ (r == unordered) = true) ∧
    ∀ o ∈ unordered.keyOrigins, ∃ a b, ({} : Output Value).addKeyOrigin o = .ok a ∧
      ({} : Output Value).storeValues (.int 3) (.bytes o.key) (.bytes o.pack) = .ok b ∧
      (a == b) = true := by
  intro fs
  have hK : (10000 : Int) < Value.sizeBound := by decide
  have hV : (37 : Int) < Value.sizeBound := by decide
  obtain ⟨hparts, horigins⟩ :=
    ofParts_agrees_with_decode Script.keepsBytes_given hK hV allows_builtIn
  refine ⟨?_, fun o _ => ?_⟩
  · have hbuilt := reachable_unordered.wellFormed.ofParts_eq
    obtain ⟨haccepts, hsame⟩ := hparts unordered fs (writtenAs_flatMap unordered) (by decide)
    obtain ⟨r, hr⟩ := haccepts.1 ⟨_, hbuilt⟩
    obtain ⟨halike, hbeq⟩ := hsame _ r hbuilt hr
    exact ⟨r, hr, halike.keyOrigins, hbeq⟩
  · obtain ⟨hagree, hbeq⟩ := (horigins {} ((reachable_iff _).2 wellFormed_empty)).1 o
    have ha : ({} : Output Value).addKeyOrigin o = .ok { keyOrigins := [o] } :=
      addKeyOrigin_eq_ok_iff.2 ⟨List.forall_mem_nil _, rfl⟩
    obtain ⟨b, hb⟩ := Agree.exists_ok (ha ▸ hagree)
    exact ⟨_, b, ha, hb, (hbeq _ b ha hb).2 (by simp [HasScript])⟩

/-- In a record with a NaN for a script an origin is added and stored alike, but the record is not
equal to itself, so that the two are not. -/
theorem not_beq_addKeyOrigin_nanScript :
    let o : KeyOrigin := ⟨2 :: List.replicate 32 7, [1, 2, 3, 4], [], rfl, rfl⟩
    let r : Output Value := { nanScript with keyOrigins := [o] }
    ofArguments [("redeem_script", .float .nan)] = .ok nanScript ∧
      Reachable Script.given nanScript ∧ nanScript.addKeyOrigin o = .ok r ∧
      nanScript.storeValues (.int 3) (.bytes o.key) (.bytes o.pack) = .ok r ∧
      ¬ (r == r) = true := by
  intro o r
  have hadded : nanScript.addKeyOrigin o = .ok r :=
    addKeyOrigin_eq_ok_iff.2 ⟨List.forall_mem_nil _, rfl⟩
  refine ⟨rfl, (reachable_iff _).2 wellFormed_nanScript, hadded, ?_, fun h => ?_⟩
  · have ho : o.unflagged = o := KeyOrigin.unflagged_eq rfl
    have hstored : nanScript.store (ofKeyOrigin o) = .ok r := by
      rw [store_ofKeyOrigin, ho]
      exact hadded
    exact (storeValuesWith_bytes Script.keepsBytes_given nanScript (ofKeyOrigin o)).trans hstored
  · have hself : (some (Value.float .nan) == some (Value.float .nan)) = true :=
      (beq_iff_sort.1 h).1.1
    exact absurd hself (by decide)

end PartialTx.Output
