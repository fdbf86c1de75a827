import PartialTx.Proofs.Bytes.Hex
import PartialTx.Proofs.KeyPath.Canonical
import PartialTx.Proofs.Origin.Fields
import PartialTx.Proofs.Origin.Unpacking

/-! Origins that callers construct. Whatever is handed over, an origin comes about only if all
of it converts, and then it holds what it converts to. Such an origin can be packed and viewed,
and its field holds an equal origin. -/

namespace PartialTx

/-! ### Conversions and checks -/

theorem Value.toBytes_hex (bs : Bytes) : (text bs.hex).toBytes = .ok (some bs) := by
  simp only [toBytes, Bytes.ofHex?_hex]

theorem ChildIndex.ofValue?_eq_some_iff {v : Value} {i : ChildIndex} :
    ofValue? v = some i ↔ v = i.toValue := by
  constructor
  · intro h
    cases v with
    | bool b =>
      cases h
      rfl
    | int n =>
      simp only [ofValue?] at h
      split at h
      next hn =>
        cases h
        have hlt : n.toNat < UInt32.size := by
          have : Bytes.wordCount 4 = UInt32.size := rfl
          omega
        rw [toValue, UInt32.toNat_ofNat_of_lt' hlt, Int.toNat_of_nonneg hn.1]
      next => cases h
    | _ => cases h
  · rintro rfl
    exact ofValue?_toValue i

theorem KeyPath.mapM_checkStep_eq_ok_iff {steps : List Value} {p : KeyPath} :
    steps.mapM checkStep = .ok p ↔ steps = p.map ChildIndex.toValue := by
  have hcheck (v : Value) (i : ChildIndex) : checkStep v = .ok i ↔ v = i.toValue := by
    rw [← ChildIndex.ofValue?_eq_some_iff, checkStep]
    rcases ChildIndex.ofValue? v with _ | j <;> simp
  simp only [mapM_eq_ok_iff, hcheck]
  rw [← List.forall₂_map_right_iff, List.forall₂_eq_eq_eq]

theorem Origin.areNumbers_toValue (p : KeyPath) :
    AreNumbers (p.map ChildIndex.toValue) p.numbers := by
  rw [AreNumbers, KeyPath.numbers, List.map_map, List.map_map]
  refine List.map_congr_left fun i _ => ?_
  cases i with
  | index n => rfl
  | flag b => cases b <;> rfl

namespace KeyOrigin

/-! ### Key origins -/

/-- The origin holds what the arguments convert to. -/
structure MadeFrom (args : Arguments) (o : KeyOrigin) : Prop where
  key : ∃ v, args.required "pubkey" = .ok v ∧ v.toBytes = .ok (some o.key)
  fingerprint : ∃ v, args.required "fingerprint" = .ok v ∧ v.toBytes = .ok (some o.fingerprint)
  path : ∃ v, args.required "path" = .ok v ∧
    KeyPath.stepsOfValue v = .ok (o.path.map ChildIndex.toValue)

theorem ofValues_eq_ok_iff {key fingerprint path : Value} {o : KeyOrigin} :
    ofValues key fingerprint path = .ok o ↔
      key.toBytes = .ok (some o.key) ∧ fingerprint.toBytes = .ok (some o.fingerprint) ∧
        KeyPath.stepsOfValue path = .ok (o.path.map ChildIndex.toValue) := by
  simp only [ofValues, bind_eq_ok_iff, ofParts_eq_ok_iff, KeyPath.mapM_checkStep_eq_ok_iff]
  constructor
  · rintro ⟨_, hk, _, hf, _, hp, rfl, rfl, rfl⟩
    exact ⟨hk, hf, hp⟩
  · rintro ⟨hk, hf, hp⟩
    exact ⟨_, hk, _, hf, _, hp, rfl, rfl, rfl⟩

theorem madeFrom_of_ofArguments {args : Arguments} {o : KeyOrigin}
    (h : ofArguments args = .ok o) : o.MadeFrom args := by
  simp only [ofArguments, bind_eq_ok_iff, ofValues_eq_ok_iff] at h
  obtain ⟨-, -, key, hkey, fingerprint, hfingerprint, path, hpath, hk, hf, hp⟩ := h
  exact ⟨⟨key, hkey, hk⟩, ⟨fingerprint, hfingerprint, hf⟩, ⟨path, hpath, hp⟩⟩

theorem ofArguments_members (key fingerprint path : Value) :
    ofArguments [("pubkey", key), ("fingerprint", fingerprint), ("path", path)] =
      ofValues key fingerprint path := rfl

/-- The fingerprint and the steps as they are packed. -/
def given (o : KeyOrigin) : Origin.Given :=
  { fingerprint := o.fingerprint, steps := o.path.map ChildIndex.toValue }

/-- The view of an origin, made of parts that are looked at as if their kinds were not known. -/
def view (o : KeyOrigin) : Except Fault Value := do
  let key ← (Value.bytes o.key).hexForm
  let fingerprint ← (Value.bytes o.fingerprint).hexForm
  let path ← KeyPath.textOfValue (.text KeyPath.usualMark) (.list (o.path.map ChildIndex.toValue))
  return .object [("pubkey", .text key), ("fingerprint", .text fingerprint), ("path", .text path)]

theorem view_eq (o : KeyOrigin) : o.view = .ok o.toValue := by
  rw [view, KeyPath.textOfValue_list]
  rfl

theorem packable (o : KeyOrigin) : o.given.Packable where
  length_fingerprint := o.length_fingerprint
  inRange := Origin.exists_areNumbers_iff.1 ⟨_, Origin.areNumbers_toValue o.path⟩

theorem pack_given (o : KeyOrigin) : o.given.pack = .ok o.pack :=
  Origin.Given.pack_of_areNumbers o.length_fingerprint (Origin.areNumbers_toValue o.path)

theorem unflagged_beq (o : KeyOrigin) : (o.unflagged == o) = true := by
  show (o.unflagged.parts == o.parts) = true
  rw [parts_unflagged, beq_self_eq_true]

end KeyOrigin

namespace TapOrigin

/-! ### Origins with leaf hashes -/

/-- The origin holds what the arguments convert to; leaf hashes may be left out. -/
structure MadeFrom (args : Arguments) (o : TapOrigin) : Prop where
  key : ∃ v, args.required "xonly_pubkey" = .ok v ∧ v.toBytes = .ok (some o.key)
  leafHashes : ∃ items, (args.optional "leaf_hashes" (.list [])).elements = .ok items ∧
    items.mapM Value.toBytes = .ok (o.leafHashes.map some)
  fingerprint : ∃ v, args.required "fingerprint" = .ok v ∧ v.toBytes = .ok (some o.fingerprint)
  path : ∃ v, args.required "path" = .ok v ∧
    KeyPath.stepsOfValue v = .ok (o.path.map ChildIndex.toValue)

theorem ofValues_eq_ok_iff {key leafHashes fingerprint path : Value} {o : TapOrigin} :
    ofValues key leafHashes fingerprint path = .ok o ↔
      key.toBytes = .ok (some o.key) ∧
        (∃ items, leafHashes.elements = .ok items ∧
          items.mapM Value.toBytes = .ok (o.leafHashes.map some)) ∧
        fingerprint.toBytes = .ok (some o.fingerprint) ∧
        KeyPath.stepsOfValue path = .ok (o.path.map ChildIndex.toValue) := by
  simp only [ofValues, bind_eq_ok_iff, ofParts_eq_ok_iff, KeyPath.mapM_checkStep_eq_ok_iff]
  constructor
  · rintro ⟨_, hk, items, hitems, _, hl, _, hf, _, hp, rfl, rfl, rfl, rfl⟩
    exact ⟨hk, ⟨items, hitems, hl⟩, hf, hp⟩
  · rintro ⟨hk, ⟨items, hitems, hl⟩, hf, hp⟩
    exact ⟨_, hk, items, hitems, _, hl, _, hf, _, hp, rfl, rfl, rfl, rfl⟩

theorem madeFrom_of_ofArguments {args : Arguments} {o : TapOrigin}
    (h : ofArguments args = .ok o) : o.MadeFrom args := by
  simp only [ofArguments, bind_eq_ok_iff, ofValues_eq_ok_iff] at h
  obtain ⟨-, -, key, hkey, fingerprint, hfingerprint, path, hpath, hk, hl, hf, hp⟩ := h
  exact ⟨⟨key, hkey, hk⟩, hl, ⟨fingerprint, hfingerprint, hf⟩, ⟨path, hpath, hp⟩⟩

theorem ofArguments_members (key leafHashes fingerprint path : Value) :
    ofArguments [("xonly_pubkey", key), ("leaf_hashes", leafHashes),
      ("fingerprint", fingerprint), ("path", path)] =
      ofValues key leafHashes fingerprint path := rfl

/-- The leaf hashes, the fingerprint and the steps as they are packed. -/
def given (o : TapOrigin) : Origin.GivenTap where
  leafHashes := o.leafHashes
  fingerprint := o.fingerprint
  steps := o.path.map ChildIndex.toValue

/-- The view of an origin, made of parts that are looked at as if their kinds were not known. -/
def view (o : TapOrigin) : Except Fault Value := do
  let key ← (Value.bytes o.key).hexForm
  let hashes ← (o.leafHashes.map Value.bytes).mapM Value.hexForm
  let fingerprint ← (Value.bytes o.fingerprint).hexForm
  let path ← KeyPath.textOfValue (.text KeyPath.usualMark) (.list (o.path.map ChildIndex.toValue))
  return .object [("xonly_pubkey", .text key),
    ("leaf_hashes", .list (hashes.map fun (h : String) => .text h)),
    ("fingerprint", .text fingerprint), ("path", .text path)]

theorem view_eq (o : TapOrigin) : o.view = .ok o.toValue := by
  have hhashes : (o.leafHashes.map Value.bytes).mapM Value.hexForm =
      .ok (o.leafHashes.map Bytes.hex) := mapM_map_eq_ok_map fun _ _ => rfl
  rw [view, KeyPath.textOfValue_list, hhashes]
  simp only [Value.hexForm, toValue, bind, Except.bind, pure, Except.pure, List.map_map]
  rfl

theorem packable (o : TapOrigin) : o.given.toGiven.Packable where
  length_fingerprint := o.length_fingerprint
  inRange := Origin.exists_areNumbers_iff.1 ⟨_, Origin.areNumbers_toValue o.path⟩

theorem pack_given (o : TapOrigin) (h : o.leafHashes.length < Bytes.wordCount 8) :
    o.given.pack = .ok o.pack :=
  Origin.GivenTap.pack_of_areNumbers (o.tapParts h) (Origin.areNumbers_toValue o.path)

theorem unflagged_beq (o : TapOrigin) : (o.unflagged == o) = true := by
  show (o.unflagged.parts == o.parts) = true
  rw [parts_unflagged, beq_self_eq_true]

end TapOrigin

namespace Origin

/-! ### What callers construct -/

/-- An origin that is constructed from arguments of any kinds holds what they convert to, in the
right form. It can be packed and viewed, and what is packed holds an equal origin; leaf hashes
are as many as a size can tell, which a sequence never exceeds. -/
theorem constructed_packs_and_reads :
    (∀ (args : Arguments) (o : KeyOrigin), KeyOrigin.ofArguments args = .ok o →
      o.MadeFrom args ∧ Key.isCompressed o.key ∧ o.given.Packable ∧ o.view = .ok o.toValue ∧
        ∃ packed o', o.given.pack = .ok packed ∧
          KeyOrigin.ofFieldValues (.bytes (Keyed.key o)) (.bytes packed) = .ok o' ∧
          (o' == o) = true) ∧
    ∀ (args : Arguments) (o : TapOrigin), TapOrigin.ofArguments args = .ok o →
      o.MadeFrom args ∧ Key.isXOnly o.key ∧ (∀ h ∈ o.leafHashes, h.length = 32) ∧
        o.given.toGiven.Packable ∧ o.view = .ok o.toValue ∧
        (o.leafHashes.length < Bytes.wordCount 8 → ∃ packed o', o.given.pack = .ok packed ∧
          TapOrigin.ofFieldValues (.bytes (Keyed.key o)) (.bytes packed) = .ok o' ∧
          (o' == o) = true) := by
  constructor
  · intro args o h
    have hread := (KeyOrigin.ofFieldValues_bytes o.key o.pack).trans o.ofField_pack
    exact ⟨KeyOrigin.madeFrom_of_ofArguments h, o.key_compressed, o.packable, o.view_eq, o.pack,
      o.unflagged, o.pack_given, hread, o.unflagged_beq⟩
  · intro args o h
    refine ⟨TapOrigin.madeFrom_of_ofArguments h, o.key_xOnly, o.length_leafHash, o.packable,
      o.view_eq, fun hcount => ?_⟩
    have hread := (TapOrigin.ofFieldValues_bytes o.key o.pack).trans (TapOrigin.ofField_pack hcount)
    exact ⟨o.pack, o.unflagged, o.pack_given hcount, hread, o.unflagged_beq⟩

/-- A key as hexadecimal text and a flag in a path; a leaf hash as a number of zeros, and a path
as text. -/
theorem constructed_packs_and_reads_hex :
    let keyArgs : Arguments := [("pubkey", .text (Bytes.hex (2 :: List.replicate 32 7))),
      ("fingerprint", .list [.int 1, .bool true, .int 3, .int 4]),
      ("path", .list [.bool true, .int 5])]
    let tapArgs : Arguments := [("xonly_pubkey", .buffer (List.replicate 32 7)),
      ("leaf_hashes", .list [.int 32]), ("fingerprint", .bytes [1, 2, 3, 4]),
      ("path", .text "m/84'")]
    (∃ o packed o', KeyOrigin.ofArguments keyArgs = .ok o ∧ o.given.pack = .ok packed ∧
      KeyOrigin.ofFieldValues (.bytes (Keyed.key o)) (.bytes packed) = .ok o' ∧
      (o' == o) = true) ∧
    ∃ o packed o', TapOrigin.ofArguments tapArgs = .ok o ∧
      o.leafHashes.length < Bytes.wordCount 8 ∧ o.given.pack = .ok packed ∧
      TapOrigin.ofFieldValues (.bytes (Keyed.key o)) (.bytes packed) = .ok o' ∧
      (o' == o) = true := by
  intro keyArgs tapArgs
  constructor
  · have ho : KeyOrigin.ofArguments keyArgs =
        .ok ⟨2 :: List.replicate 32 7, [1, 1, 3, 4], [.flag true, .index 5], rfl, rfl⟩ :=
      (KeyOrigin.ofArguments_members _ _ _).trans
        (KeyOrigin.ofValues_eq_ok_iff.2 ⟨Value.toBytes_hex _, rfl, rfl⟩)
    obtain ⟨-, -, -, -, packed, o', hround⟩ := constructed_packs_and_reads.1 keyArgs _ ho
    exact ⟨_, packed, o', ho, hround⟩
  · have ho : TapOrigin.ofArguments tapArgs =
        .ok ⟨List.replicate 32 7, [List.replicate 32 0], [1, 2, 3, 4], [.index 0x80000054], rfl,
          List.forall_mem_singleton.2 rfl, rfl⟩ :=
      (TapOrigin.ofArguments_members _ _ _ _).trans
        (TapOrigin.ofValues_eq_ok_iff.2 ⟨rfl, ⟨[.int 32], rfl, rfl⟩, rfl, rfl⟩)
    obtain ⟨-, -, -, -, -, hround⟩ := constructed_packs_and_reads.2 tapArgs _ ho
    obtain ⟨packed, o', hround⟩ := hround (by decide)
    exact ⟨_, packed, o', ho, by decide, hround⟩

end Origin

end PartialTx
