import PartialTx.Origin.Tap
import PartialTx.Proofs.Origin.Packed
import PartialTx.Proofs.Outcome

/-! Key origins and their fields. An origin comes out of a field exactly if the key has
the right form and the value is the packed form of the origin; its path then holds
numbers only. -/

namespace PartialTx

/-- A path without flags. -/
def KeyPath.Unflagged (p : KeyPath) : Prop := p = ofNumbers p.numbers

theorem KeyPath.unflagged_ofNumbers (ns : List UInt32) : Unflagged (ofNumbers ns) := by
  rw [Unflagged, numbers_ofNumbers]

namespace KeyOrigin

/-- Parts make the origin that has them, if they are there. -/
theorem ofParts_eq_ok_iff {key fingerprint : Option Bytes} {path : Except Fault KeyPath}
    {o : KeyOrigin} :
    ofParts key fingerprint path = .ok o ↔
      key = some o.key ∧ fingerprint = some o.fingerprint ∧ path = .ok o.path := by
  constructor
  · intro h
    unfold ofParts at h
    split at h
    next => cases h
    next key =>
      split at h
      next hk =>
        split at h
        next => cases h
        next fingerprint =>
          split at h
          next hf =>
            rcases path with fault | path <;> cases h
            exact ⟨rfl, rfl, rfl⟩
          next => cases h
      next => cases h
  · rintro ⟨rfl, rfl, rfl⟩
    simp only [ofParts, dif_pos o.key_compressed, dif_pos o.length_fingerprint]
    rfl

theorem length_pack (o : KeyOrigin) : o.pack.length = 4 + 4 * o.path.length := by
  rw [pack, Origin.length_pack o.length_fingerprint, KeyPath.numbers, List.length_map]

/-- An origin with the flags in its path read as numbers. -/
def unflagged (o : KeyOrigin) : KeyOrigin := { o with path := KeyPath.ofNumbers o.path.numbers }

theorem unflagged_eq {o : KeyOrigin} (h : KeyPath.Unflagged o.path) : o.unflagged = o := by
  rw [unflagged, ← h]

theorem parts_unflagged (o : KeyOrigin) : o.unflagged.parts = o.parts := by
  rw [parts, parts, unflagged, KeyPath.numbers_ofNumbers]

/-- The field of an origin holds the origin, without its flags. -/
theorem ofField_pack (o : KeyOrigin) : ofField o.key o.pack = .ok o.unflagged := by
  have hu : Origin.unpack o.pack = _ := Origin.unpack_pack o.length_fingerprint _
  have hparts : ofParts (some o.key) (some o.fingerprint) (.ok o.unflagged.path) =
      .ok o.unflagged := ofParts_eq_ok_iff.2 ⟨rfl, rfl, rfl⟩
  rw [ofField, hu]
  exact hparts

theorem ofField_eq_ok_iff {key value : Bytes} {o : KeyOrigin} :
    ofField key value = .ok o ↔ o.key = key ∧ o.pack = value ∧ KeyPath.Unflagged o.path := by
  constructor
  · intro h
    obtain ⟨⟨fingerprint, ns⟩, hu, hparts⟩ := bind_eq_ok_iff.1 h
    obtain ⟨-, rfl⟩ := Origin.unpack_eq_ok_iff.1 hu
    obtain ⟨hk, hf, hp⟩ := ofParts_eq_ok_iff.1 hparts
    cases hk
    cases hf
    have hpath : o.path = KeyPath.ofNumbers ns := (Except.ok.inj hp).symm
    refine ⟨rfl, ?_, hpath ▸ KeyPath.unflagged_ofNumbers ns⟩
    rw [pack, hpath, KeyPath.numbers_ofNumbers]
  · rintro ⟨rfl, rfl, hp⟩
    rw [ofField_pack, unflagged_eq hp]

/-- Any key of the right form and any value of the right length make an origin. -/
theorem exists_ofField {key value : Bytes} {j : Nat} (hk : Key.isCompressed key)
    (hv : value.length = 4 + 4 * j) : ∃ o, ofField key value = .ok o := by
  obtain ⟨fingerprint, ns, hf, rfl⟩ := Origin.exists_pack_eq hv
  refine ⟨⟨key, fingerprint, KeyPath.ofNumbers ns, hk, hf⟩, ofField_eq_ok_iff.2 ⟨rfl, ?_, ?_⟩⟩
  · rw [pack, KeyPath.numbers_ofNumbers]
  · exact KeyPath.unflagged_ofNumbers ns

/-- An origin's field tells what counts in it. -/
theorem parts_eq_of_pack_eq {o o' : KeyOrigin} (hk : o.key = o'.key) (hp : o.pack = o'.pack) :
    o.parts = o'.parts := by
  have hu := congrArg Origin.unpack hp
  rw [pack, pack, Origin.unpack_pack o.length_fingerprint,
    Origin.unpack_pack o'.length_fingerprint] at hu
  obtain ⟨hf, hn⟩ := Prod.mk.inj (Except.ok.inj hu)
  rw [parts, parts, hk, hf, hn]

end KeyOrigin

namespace TapOrigin

theorem tapParts (o : TapOrigin) (h : o.leafHashes.length < Bytes.wordCount 8) :
    Origin.TapParts o.leafHashes o.fingerprint :=
  ⟨o.length_leafHash, o.length_fingerprint, h⟩

theorem exists_pack_eq (o : TapOrigin) : ∃ m j rest,
    o.pack = CompactSize.encode m ++ rest ∧ rest.length = 32 * m + 4 + 4 * j :=
  ⟨_, _, _, List.append_assoc ..,
    Origin.length_packTap_tail o.length_leafHash o.length_fingerprint _⟩

/-- The number of leaf hashes is bounded by the length of the packed form. -/
theorem leafHashes_le (o : TapOrigin) : o.leafHashes.length ≤ o.pack.length := by
  have hflat := Bytes.length_flatten o.length_leafHash
  simp only [pack, Origin.packTap, List.length_append, hflat, Origin.leafHashLength]
  omega

theorem mapM_checkLeafHash {hashes : List Bytes}
    (h : ∀ hash ∈ hashes, hash.length = Origin.leafHashLength) :
    (hashes.map some).mapM checkLeafHash = .ok hashes :=
  mapM_map_eq_ok fun hash hmem => if_pos (h hash hmem)

theorem mapM_checkLeafHash_eq_ok {given : List (Option Bytes)} {hashes : List Bytes}
    (h : given.mapM checkLeafHash = .ok hashes) : given = hashes.map some := by
  rw [mapM_eq_ok_iff] at h
  rw [← List.forall₂_eq_eq_eq, List.forall₂_map_right_iff]
  refine h.imp fun hash bs hbs => ?_
  rcases hash with _ | hash
  · cases hbs
  · rw [checkLeafHash] at hbs
    split at hbs <;> cases hbs
    rfl

theorem ofParts_eq_ok_iff {key fingerprint : Option Bytes} {leafHashes : List (Option Bytes)}
    {path : Except Fault KeyPath} {o : TapOrigin} :
    ofParts key leafHashes fingerprint path = .ok o ↔
      key = some o.key ∧ leafHashes = o.leafHashes.map some ∧
        fingerprint = some o.fingerprint ∧ path = .ok o.path := by
  constructor
  · intro h
    unfold ofParts at h
    split at h
    next => cases h
    next key =>
      split at h
      next hk =>
        split at h
        next => cases h
        next hashes hhashes =>
          split at h
          next => cases h
          next fingerprint =>
            split at h
            next hf =>
              rcases path with fault | path <;> cases h
              exact ⟨rfl, mapM_checkLeafHash_eq_ok hhashes, rfl, rfl⟩
            next => cases h
      next => cases h
  · rintro ⟨rfl, rfl, rfl, rfl⟩
    have hhashes := mapM_checkLeafHash o.length_leafHash
    rw [ofParts, dif_pos o.key_xOnly]
    split
    next fault hfault => cases hhashes.symm.trans hfault
    next hashes hok =>
      cases hhashes.symm.trans hok
      simp only [dif_pos o.length_fingerprint]
      rfl

theorem ofParts_eq_ok {key fingerprint : Bytes} {leafHashes : List Bytes} (path : KeyPath)
    (hk : Key.isXOnly key) (h : Origin.TapParts leafHashes fingerprint) :
    ofParts (some key) (leafHashes.map some) (some fingerprint) (.ok path) =
      .ok ⟨key, leafHashes, fingerprint, path, hk, h.length_leafHash, h.length_fingerprint⟩ :=
  ofParts_eq_ok_iff.2 ⟨rfl, rfl, rfl, rfl⟩

/-- An origin comes from parts that can be packed, and from their packed form. -/
theorem unpackTap_of_ofField {key value : Bytes} {o : TapOrigin} (h : ofField key value = .ok o) :
    o.key = key ∧ KeyPath.Unflagged o.path ∧
      Origin.unpackTap value = .ok (o.leafHashes, o.fingerprint, o.path.numbers) := by
  obtain ⟨⟨leafHashes, fingerprint, ns⟩, hu, hparts⟩ := bind_eq_ok_iff.1 h
  obtain ⟨hk, hl, hf, hp⟩ := ofParts_eq_ok_iff.1 hparts
  have hpath : o.path = KeyPath.ofNumbers ns := (Except.ok.inj hp).symm
  have hhashes : leafHashes = o.leafHashes :=
    (List.map_inj_right fun _ _ => Option.some.inj).1 hl
  refine ⟨(Option.some.inj hk).symm, hpath ▸ KeyPath.unflagged_ofNumbers ns, ?_⟩
  rw [hu, hhashes, Option.some.inj hf, hpath, KeyPath.numbers_ofNumbers]

/-- An origin with the flags in its path read as numbers. -/
def unflagged (o : TapOrigin) : TapOrigin := { o with path := KeyPath.ofNumbers o.path.numbers }

theorem unflagged_eq {o : TapOrigin} (h : KeyPath.Unflagged o.path) : o.unflagged = o := by
  rw [unflagged, ← h]

theorem parts_unflagged (o : TapOrigin) : o.unflagged.parts = o.parts := by
  rw [parts, parts, unflagged, KeyPath.numbers_ofNumbers]

/-- The field of an origin holds the origin, without its flags, if its leaf hashes can be
counted. -/
theorem ofField_pack {o : TapOrigin} (h : o.leafHashes.length < Bytes.wordCount 8) :
    ofField o.key o.pack = .ok o.unflagged := by
  have hu : Origin.unpackTap o.pack = _ := Origin.unpackTap_packTap (o.tapParts h) _
  simp only [ofField, hu, bind, Except.bind, ofParts_eq_ok _ o.key_xOnly (o.tapParts h)]
  rfl

theorem ofField_eq_ok_iff {key value : Bytes} {o : TapOrigin}
    (hlen : value.length < Bytes.wordCount 8) :
    ofField key value = .ok o ↔ o.key = key ∧ o.pack = value ∧ KeyPath.Unflagged o.path := by
  constructor
  · intro h
    obtain ⟨hkey, hp, hu⟩ := unpackTap_of_ofField h
    exact ⟨hkey, (Origin.unpackTap_eq_ok_iff.1 hu).2.symm, hp⟩
  · rintro ⟨rfl, rfl, hp⟩
    rw [ofField_pack (Nat.lt_of_le_of_lt o.leafHashes_le hlen), unflagged_eq hp]

/-- Any key of the right form and any value that is long enough for its number of leaf hashes
make an origin. -/
theorem exists_ofField {key rest : Bytes} {m j : Nat} (hk : Key.isXOnly key)
    (hm : m < Bytes.wordCount 8) (hrest : rest.length = 32 * m + 4 + 4 * j) :
    ∃ o, ofField key (CompactSize.encode m ++ rest) = .ok o := by
  obtain ⟨leafHashes, fingerprint, ns, hparts, hpack⟩ := Origin.exists_packTap_eq hm hrest
  have hu := Origin.unpackTap_packTap hparts ns
  rw [hpack] at hu
  refine ⟨⟨key, leafHashes, fingerprint, KeyPath.ofNumbers ns, hk, hparts.length_leafHash,
    hparts.length_fingerprint⟩, ?_⟩
  simp only [ofField, hu, bind, Except.bind, ofParts_eq_ok _ hk hparts]

/-- An origin's field tells what counts in it. -/
theorem parts_eq_of_pack_eq {o o' : TapOrigin} (ho : o.pack.length < Bytes.wordCount 8)
    (hk : o.key = o'.key) (hp : o.pack = o'.pack) : o.parts = o'.parts := by
  have hu := congrArg Origin.unpackTap hp
  have ho' : o'.pack.length < Bytes.wordCount 8 := hp ▸ ho
  rw [pack, pack,
    Origin.unpackTap_packTap (o.tapParts (Nat.lt_of_le_of_lt o.leafHashes_le ho)),
    Origin.unpackTap_packTap (o'.tapParts (Nat.lt_of_le_of_lt o'.leafHashes_le ho'))] at hu
  obtain ⟨hl, hrest⟩ := Prod.mk.inj (Except.ok.inj hu)
  obtain ⟨hf, hn⟩ := Prod.mk.inj hrest
  rw [parts, parts, hk, hl, hf, hn]

end TapOrigin

end PartialTx
