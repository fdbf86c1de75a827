import PartialTx.Proofs.Output.History
import PartialTx.Proofs.Output.Written

/-! Reading back what has been written. Records written one after another in front of
anything are read back one by one: each reading ends where the written form of its
record ends, and gives an equal record with its origins in ascending order. A record
with a field beyond the limits is refused as oversized. -/

namespace PartialTx

/-- Lists whose entries have the same images, where entries with one image are equal. -/
theorem beq_of_map_eq {α β : Type} [BEq α] {g : α → β} {as bs : List α}
    (hg : ∀ a ∈ as, ∀ b, g a = g b → (a == b) = true) (h : as.map g = bs.map g) :
    (as == bs) = true := by
  induction as generalizing bs with
  | nil =>
    rw [List.map_eq_nil_iff.1 h.symm]
    rfl
  | cons a as ih =>
    rcases bs with _ | ⟨b, bs⟩
    · cases h
    · obtain ⟨hab, hrest⟩ := List.cons.inj h
      obtain ⟨ha, has⟩ := List.forall_mem_cons.1 hg
      show (a == b && as == bs) = true
      rw [ha b hab, ih has hrest]
      rfl

namespace Output

open PartialTx.Stream (Plain Advance)

variable {r r' : Output Bytes} {K V : Int}

/-! ### Equal records -/

theorem single_inj {type : FieldType} {a b : Option Bytes} (h : single type a = single type b) :
    a = b := by
  rcases a with _ | a <;> rcases b with _ | b <;> simp_all [single]

theorem ascending_of_map_eq {α : Type} [Keyed α] {g : α → Field}
    (hg : ∀ a, (g a).key = Keyed.key a) {as bs : List α} (h : as.map g = bs.map g)
    (hbs : Keyed.Ascending bs) : Keyed.Ascending as := by
  have hkeys (cs : List α) : cs.map Keyed.key = (cs.map g).map Field.key := by
    rw [List.map_map]
    congr 1
    funext c
    exact (hg c).symm
  have hpairs : (bs.map Keyed.key).Pairwise (· < ·) := List.pairwise_map.2 hbs
  rw [hkeys, ← h, ← hkeys] at hpairs
  exact List.pairwise_map.1 hpairs

/-- A record that has been read from the fields of another is equal to it, with its origins in
order. -/
theorem Holds.beq_of_fields (h : r'.Holds r.fields) (hr : r.WellFormed)
    (hlen : ∀ f ∈ r.fields, f.value.length < Bytes.wordCount 8) :
    (r' == r) = true ∧ Keyed.Ascending r'.keyOrigins ∧ Keyed.Ascending r'.tapOrigins := by
  have hof (type : FieldType) : r'.fieldsOf type = r.ordered.fieldsOf type := by
    rw [h.fieldsOf_eq, ofType_fields]
  have hkeys : r'.keyOrigins.map ofKeyOrigin = (Keyed.sort r.keyOrigins).map ofKeyOrigin :=
    hof .keyOrigin
  have htaps : r'.tapOrigins.map ofTapOrigin = (Keyed.sort r.tapOrigins).map ofTapOrigin := by
    rw [← TapOrigin.sort_eq]
    exact hof .tapKeyOrigin
  have hkasc := ascending_of_map_eq (fun _ => rfl) hkeys
    (Keyed.ascending_sort hr.keyOrigins_distinct)
  have htasc := ascending_of_map_eq (fun _ => rfl) htaps
    (Keyed.ascending_sort hr.tapOrigins_distinct)
  have hkbeq : (r'.keyOrigins == Keyed.sort r.keyOrigins) = true := by
    refine beq_of_map_eq (fun o _ o' heq => ?_) hkeys
    show (o.parts == o'.parts) = true
    exact beq_iff_eq.2 (KeyOrigin.parts_eq_of_pack_eq (congrArg Field.key heq)
      (congrArg Field.value heq))
  have htbeq : (r'.tapOrigins == Keyed.sort r.tapOrigins) = true := by
    refine beq_of_map_eq (fun o ho o' heq => ?_) htaps
    have hmem : ofTapOrigin o ∈ r.fields := by
      have hof : ofTapOrigin o ∈ r'.fieldsOf .tapKeyOrigin := List.mem_map_of_mem ho
      rw [h.fieldsOf_eq] at hof
      exact (List.mem_filter.1 hof).1
    show (o.parts == o'.parts) = true
    exact beq_iff_eq.2 (TapOrigin.parts_eq_of_pack_eq (hlen _ hmem) (congrArg Field.key heq)
      (congrArg Field.value heq))
  refine ⟨?_, hkasc, htasc⟩
  show (r'.redeemScript == r.redeemScript && r'.witnessScript == r.witnessScript
    && Keyed.sort r'.keyOrigins == Keyed.sort r.keyOrigins
    && r'.tapInternalKey == r.tapInternalKey && r'.tapTree == r.tapTree
    && TapOrigin.sort r'.tapOrigins == TapOrigin.sort r.tapOrigins) = true
  rw [single_inj (hof .redeemScript), single_inj (hof .witnessScript),
    single_inj (hof .tapInternalKey), single_inj (hof .tapTree), TapOrigin.sort_eq,
    TapOrigin.sort_eq, Keyed.sort_eq_self hkasc, Keyed.sort_eq_self htasc, hkbeq, htbeq]
  simp [ordered]

/-! ### Readings one after another -/

/-- Readings of records off one stream, each from where the one before it stopped. -/
def readings (s : Settings) (maxValue : Value) : Nat → Stream → List (Decoded Bytes)
  | 0, _ => []
  | n + 1, stream =>
    let decoded := decodeInto s maxValue {} stream
    decoded :: readings s maxValue n decoded.progress.stream

/-- The written forms of records, one after another. -/
def written (rs : List (Output Bytes)) : Bytes := rs.flatMap toBytes

section
variable {s : Settings} {maxValue : Value} (hK : K < Value.sizeBound) (hV : V < Value.sizeBound)
  (hs : s.Allows maxValue K V)
include hK hV hs

/-- A well-formed record in front of the stream is read off it. -/
theorem WellFormed.decodeInto_of_written (h : r.WellFormed) (hfits : ∀ f ∈ r.fields, f.Fits K V)
    {stream : Stream} (hplain : stream.Plain) {rest : Bytes}
    (hrest : stream.rest = r.toBytes ++ rest) {d : Decoded Bytes}
    (hd : d = Output.decodeInto s maxValue {} stream) :
    d.outcome = .ok () ∧ d.progress.state.Holds r.fields ∧
      Advance stream d.progress.stream r.toBytes := by
  obtain ⟨r', hfold, hext⟩ := (h.admissible_fields hfits).exists_extends hV
  let start : Progress (Output Bytes) := { state := {}, stream }
  obtain ⟨t, hadv, hp⟩ := FieldMap.complete_populate hK hV hfits (p := start) hplain hrest hfold
  obtain ⟨houtcome, hprogress⟩ := decodeInto_of_allows hs ({} : Output Bytes) stream
  rw [populate, hp, ← hd] at houtcome hprogress
  rw [houtcome, hprogress]
  exact ⟨rfl, hext.holds, hadv⟩

theorem readings_of_written {rs : List (Output Bytes)} (hwf : ∀ r ∈ rs, r.WellFormed)
    (hfits : ∀ r ∈ rs, ∀ f ∈ r.fields, f.Fits K V) {stream : Stream} (hplain : stream.Plain)
    {t : Bytes} (hrest : stream.rest = written rs ++ t) (i : Nat) (r : Output Bytes)
    (hi : rs[i]? = some r) :
    ∃ d, (readings s maxValue rs.length stream)[i]? = some d ∧ d.outcome = .ok () ∧
      d.progress.state.Holds r.fields ∧
      Advance stream d.progress.stream (written (rs.take (i + 1))) := by
  -- behind the first record the stream is plain again and has the others in front
  induction rs generalizing stream i with
  | nil => cases hi
  | cons r₀ rs ih =>
    obtain ⟨hwf₀, hwf⟩ := List.forall_mem_cons.1 hwf
    obtain ⟨hfits₀, hfits⟩ := List.forall_mem_cons.1 hfits
    rw [written, List.flatMap_cons, List.append_assoc] at hrest
    obtain ⟨hok, hholds, hadv⟩ := hwf₀.decodeInto_of_written hK hV hs hfits₀ hplain hrest rfl
    cases i with
    | zero =>
      cases hi
      refine ⟨_, rfl, hok, hholds, ?_⟩
      rw [List.take_succ_cons, List.take_zero, written, List.flatMap_singleton]
      exact hadv
    | succ i =>
      obtain ⟨d, hd, hok, hheld, hmore⟩ :=
        ih hwf hfits (hadv.plain hplain) (hadv.rest_of_append hrest) i hi
      exact ⟨d, hd, hok, hheld, hadv.trans hmore⟩

omit hs in
/-- A well-formed record with a field beyond the limits is refused, whatever follows it. -/
theorem WellFormed.ofStream_of_not_fits (h : r.WellFormed) (hframed : ∀ f ∈ r.fields, f.Framed)
    (hnot : ¬ ∀ f ∈ r.fields, f.Fits K V) {stream : Stream} (hplain : stream.Plain)
    {rest : Bytes} (hrest : stream.rest = r.toBytes ++ rest) :
    ∃ fault p, ofStream (.upTo K V) stream = (.error fault, p) ∧ TooLong K V fault := by
  have hlen : ∀ f ∈ r.fields, f.value.length < Bytes.wordCount 8 := fun f hf =>
    Nat.lt_trans (hframed f hf).value_lt (by decide)
  obtain ⟨r', hfold, -⟩ := exists_extends_of_formed hlen h.formed_fields h.keysDistinct_fields
  let start : Progress (Output Bytes) := { state := {}, stream }
  exact FieldMap.populate_of_not_fits hK hV hframed hnot (p := start) hplain hrest hfold

end

/-! ### The round trip -/

/-- A record of byte strings that some run comes to. -/
def ReachableBytes (r : Output Bytes) : Prop :=
  Reachable Script.given (r.map Value.bytes)

/-- Keys and values as they are written keep within limits. -/
def Within (K V : Int) (r : Output Bytes) : Prop :=
  ∀ f ∈ r.fields, (f.key.length : Int) ≤ K ∧ (f.value.length : Int) ≤ V

theorem within_iff : r.Within K V ↔ ∀ type, ∀ f ∈ r.fieldsOf type,
    (f.key.length : Int) ≤ K ∧ (f.value.length : Int) ≤ V :=
  ⟨fun h type f hf => h f (mem_fields_iff.2 ⟨type, hf⟩),
    fun h f hf =>
      have ⟨type, hf⟩ := mem_fields_iff.1 hf
      h type f hf⟩

theorem ReachableBytes.wellFormed (h : ReachableBytes r) : r.WellFormed :=
  wellFormed_map_iff.1 ((reachable_iff Script.given).1 h)

theorem WellFormed.fits_iff (h : r.WellFormed) : (∀ f ∈ r.fields, f.Fits K V) ↔ r.Within K V :=
  ⟨fun hfits f hf => ⟨(hfits f hf).key_le, (hfits f hf).value_le⟩,
    fun hw f hf => ⟨h.formed_fields.code_ne hf, (hw f hf).1, (hw f hf).2⟩⟩

/-- Records that runs come to, written one after another in front of anything, are read back
one by one, equal and in order, and each reading stops where its record ends. What one record
is written as decodes as an equal record. A record with a key or a value beyond the limits is
refused for a size above a limit, alone and in front of anything; that is told as oversized,
unless the limit has no numeral. -/
theorem readings_of_reachable {s : Settings} {maxValue : Value} {K V : Int}
    (hK : K < Value.sizeBound) (hV : V < Value.sizeBound) (hs : s.Allows maxValue K V) :
    (∀ (rs : List (Output Bytes)) (t : Bytes),
      (∀ r ∈ rs, r.ReachableBytes ∧ r.Within K V) → ∀ i r, rs[i]? = some r →
      ∃ d, (readings s maxValue rs.length (.ofBytes (written rs ++ t)))[i]? = some d ∧
        d.outcome = .ok () ∧ (d.progress.state == r) = true ∧
        Keyed.Ascending d.progress.state.keyOrigins ∧
        Keyed.Ascending d.progress.state.tapOrigins ∧
        d.progress.stream.position = (written (rs.take (i + 1))).length ∧
        d.progress.stream.content = written rs ++ t) ∧
    (∀ r : Output Bytes, r.ReachableBytes → r.Within K V →
      ∃ r', (decode s maxValue (.bytes r.toBytes)).1 = .ok r' ∧ (r' == r) = true) ∧
    (∀ (r : Output Bytes) (t : Bytes), r.ReachableBytes →
      (∀ f ∈ r.fields, f.key.length < Value.sizeBound ∧ f.value.length < Value.sizeBound) →
      ¬ r.Within K V →
      (∃ fault, (decode s maxValue (.bytes r.toBytes)).1 = .error fault ∧ TooLong K V fault) ∧
      ∃ fault, (decodeInto s maxValue ({} : Output Bytes) (.ofBytes (r.toBytes ++ t))).outcome =
        .error fault ∧ TooLong K V fault) ∧
    ∀ fault, TooLong K V fault →
      (fault.kind = .oversized ∨ fault.kind = .badValue ∧ Untold K V fault) ∧
      (Text.hasNumeral K → Text.hasNumeral V → fault.kind = .oversized) := by
  refine ⟨fun rs t hrs i r hi => ?_, fun r hr hw => ?_, fun r t hr hlen hnot => ?_,
    fun fault hlong => ⟨hlong.told, hlong.kind_eq⟩⟩
  · have hwf : ∀ r ∈ rs, r.WellFormed := fun r hr => (hrs r hr).1.wellFormed
    have hfits : ∀ r ∈ rs, ∀ f ∈ r.fields, f.Fits K V := fun r hr =>
      (hwf r hr).fits_iff.2 (hrs r hr).2
    obtain ⟨d, hd, hok, hholds, hadv⟩ := readings_of_written hK hV hs hwf hfits
      (Stream.plain_ofBytes _) (Stream.rest_ofBytes (written rs ++ t)) i r hi
    have hr := List.mem_of_getElem? hi
    obtain ⟨hbeq, hkeys, htaps⟩ := hholds.beq_of_fields (hwf r hr) (value_lt_of_fits hV (hfits r hr))
    refine ⟨d, hd, hok, hbeq, hkeys, htaps, ?_, hadv.content_eq⟩
    rw [hadv.position_eq]
    exact Nat.zero_add _
  · have hfits : ∀ f ∈ r.fields, f.Fits K V := hr.wellFormed.fits_iff.2 hw
    obtain ⟨r', hr', hholds⟩ := hr.wellFormed.exists_ofBytes hK hV hfits
    exact ⟨r', (decode_of_allows hs _).trans hr',
      (hholds.beq_of_fields hr.wellFormed (value_lt_of_fits hV hfits)).1⟩
  · have hframed : ∀ f ∈ r.fields, f.Framed := fun f hf =>
      ⟨hr.wellFormed.formed_fields.code_ne hf, (hlen f hf).1, (hlen f hf).2⟩
    have hrefused {stream : Stream} (hplain : stream.Plain) {rest : Bytes}
        (hrest : stream.rest = r.toBytes ++ rest) :=
      hr.wellFormed.ofStream_of_not_fits hK hV hframed
        (fun h => hnot (hr.wellFormed.fits_iff.1 h)) hplain hrest
    constructor
    · obtain ⟨fault, p, hp, hlong⟩ := hrefused (Stream.plain_ofBytes r.toBytes)
        ((Stream.rest_ofBytes r.toBytes).trans (List.append_nil _).symm)
      exact ⟨fault, by rw [decode_of_allows hs, ofBytes, hp, complete], hlong⟩
    · obtain ⟨fault, p, hp, hlong⟩ := hrefused (Stream.plain_ofBytes (r.toBytes ++ t))
        (Stream.rest_ofBytes _)
      refine ⟨fault, (decodeInto_of_allows hs _ _).1.trans ?_, hlong⟩
      exact congrArg Prod.fst hp

/-- A record whose origins were added in descending order, one with a flag in its path. -/
def unordered : Output Bytes where
  redeemScript := some [0x51]
  keyOrigins := [
    ⟨3 :: List.replicate 32 7, [1, 2, 3, 4], [.index 0x8000002c, .flag true], rfl, rfl⟩,
    ⟨2 :: List.replicate 32 7, [1, 2, 3, 4], [], rfl, rfl⟩]
  tapOrigins := [
    ⟨List.replicate 32 5, [List.replicate 32 8], [1, 2, 3, 4], [], rfl, by decide, rfl⟩]

theorem reachable_unordered : unordered.ReachableBytes := by
  refine (reachable_iff _).2 (wellFormed_map_iff.2 ⟨?_, ?_, nofun⟩)
  · show (unordered.keyOrigins.map KeyOrigin.key).Nodup
    decide
  · show (unordered.tapOrigins.map TapOrigin.key).Nodup
    decide

/-- Twice the same record in front of a byte, and the same record under a smaller limit. -/
theorem readings_of_unordered :
    (∃ d, (readings .builtIn (.int 37) 2
        (.ofBytes (written [unordered, unordered] ++ [0])))[1]? = some d ∧ d.outcome = .ok () ∧
      (d.progress.state == unordered) = true ∧
      d.progress.stream.position = (written [unordered, unordered]).length) ∧
    (∃ r, (decode .builtIn (.int 37) (.bytes unordered.toBytes)).1 = .ok r ∧
      (r == unordered) = true) ∧
    ∃ fault, (decode .builtIn (.int 36) (.bytes unordered.toBytes)).1 = .error fault ∧
      fault.kind = .oversized := by
  have hwithin : unordered.Within 10000 37 := within_iff.2 fun type => by cases type <;> decide
  have hnot : ¬ unordered.Within 10000 36 := fun h =>
    absurd (within_iff.1 h .tapKeyOrigin) (by decide)
  have hK : (10000 : Int) < Value.sizeBound := by decide
  have hV : (37 : Int) < Value.sizeBound := by decide
  obtain ⟨hreadings, hdecode, -⟩ := readings_of_reachable hK hV allows_builtIn
  obtain ⟨-, -, hrefused, htold⟩ := readings_of_reachable (V := 36) hK (by decide) allows_builtIn
  refine ⟨?_, hdecode unordered reachable_unordered hwithin, ?_⟩
  · obtain ⟨d, hd, hok, hbeq, -, -, hpos, -⟩ := hreadings [unordered, unordered] [0]
      (by simp [reachable_unordered, hwithin]) 1 unordered rfl
    exact ⟨d, hd, hok, hbeq, hpos⟩
  · have hlen : ∀ f ∈ unordered.fields,
        f.key.length < Value.sizeBound ∧ f.value.length < Value.sizeBound := fun f hf => by
      have hle := hwithin f hf
      omega
    obtain ⟨fault, hfault, hlong⟩ := (hrefused unordered [] reachable_unordered hlen hnot).1
    exact ⟨fault, hfault, (htold fault hlong).2 (by decide) (by decide)⟩

theorem toBytes_of_emptyScript : ({ redeemScript := some [] } : Output Bytes).toBytes =
    emptyScript := by
  have hfields : ({ redeemScript := some [] } : Output Bytes).fields = [⟨1, [], []⟩] := by
    simp only [fields, Keyed.sort, TapOrigin.sort_eq, List.mergeSort_nil]
    rfl
  rw [toBytes, hfields]
  rfl

/-- A record with a script of no bytes, which is beyond any limit below zero. Under one without a
numeral what it is written as is refused, though not as oversized. -/
theorem decode_emptyScript_of_unwritable :
    let r : Output Bytes := { redeemScript := some [] }
    r.ReachableBytes ∧ unwritable < Value.sizeBound ∧ ¬ r.Within 10000 unwritable ∧
      ∃ fault, (decode .builtIn (.int unwritable) (.bytes r.toBytes)).1 = .error fault ∧
        ¬ fault.kind = .oversized := by
  intro r
  rw [toBytes_of_emptyScript]
  refine ⟨(reachable_iff _).2 (wellFormed_empty.setScripts ..),
    unwritable_lt_sizeBound, fun hw => ?_, _, decode_emptyScript, ?_⟩
  · have hle := (hw _ List.mem_cons_self).2
    exact absurd unwritable_lt_zero (Int.not_lt.2 hle)
  · rw [untold_emptyScript.kind_eq]
    decide

end Output

end PartialTx
