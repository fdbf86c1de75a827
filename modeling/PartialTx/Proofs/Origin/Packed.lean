import PartialTx.Origin.Packed
import PartialTx.Proofs.Bytes.Pieces
import PartialTx.Proofs.CompactSize

/-! Unpacking is the inverse of packing: a packed origin is accepted if and only if it
is the packed form of the parts that come out of it. Which byte strings are packed
forms is told by their lengths alone, after the number of leaf hashes. -/

namespace PartialTx.Origin

open PartialTx.Stream (Plain Advance)

/-! ### Paths -/

/-- A child index as four bytes. -/
def word (n : UInt32) : Bytes := Bytes.ofWord 4 n.toNat

theorem length_word (n : UInt32) : (word n).length = 4 := Bytes.length_ofWord 4 _

theorem packPath_eq (ns : List UInt32) : packPath ns = (ns.map word).flatten := by
  rw [packPath, List.flatMap_def]
  rfl

theorem forall_length_word (ns : List UInt32) : ∀ w ∈ ns.map word, w.length = 4 := by
  intro w hw
  obtain ⟨n, -, rfl⟩ := List.mem_map.1 hw
  exact length_word n

theorem length_packPath (ns : List UInt32) : (packPath ns).length = 4 * ns.length := by
  rw [packPath_eq, Bytes.length_flatten (forall_length_word ns), List.length_map]

theorem ofNat_toWord_word (n : UInt32) : UInt32.ofNat (Bytes.toWord (word n)) = n := by
  have hlt : n.toNat < Bytes.wordCount 4 := n.toNat_lt
  rw [word, Bytes.toWord_ofWord, Nat.mod_eq_of_lt hlt, UInt32.ofNat_toNat]

theorem word_ofNat_toWord {bs : Bytes} (h : bs.length = 4) :
    word (UInt32.ofNat (Bytes.toWord bs)) = bs := by
  have hlt : Bytes.toWord bs < UInt32.size := by
    have := Bytes.toWord_lt bs
    rwa [h] at this
  rw [word, UInt32.toNat_ofNat_of_lt' hlt, ← h, Bytes.ofWord_toWord]

theorem unpackPath_packPath (ns : List UInt32) : unpackPath (packPath ns) = ns := by
  rw [unpackPath, packPath_eq, Bytes.pieces_flatten (by decide) (forall_length_word ns),
    List.map_map]
  exact List.map_id'' ofNat_toWord_word ns

theorem exists_packPath_eq {n : Nat} {bs : Bytes} (h : bs.length = 4 * n) :
    ∃ ns, packPath ns = bs := by
  obtain ⟨ps, -, hps, rfl⟩ := Bytes.exists_flatten_eq h
  refine ⟨ps.map fun p => UInt32.ofNat (Bytes.toWord p), ?_⟩
  rw [packPath_eq, List.map_map]
  congr 1
  exact (List.map_congr_left fun p hp => word_ofNat_toWord (hps p hp)).trans (List.map_id ps)

/-! ### Origins -/

theorem length_pack {fingerprint : Bytes} (h : fingerprint.length = 4) (ns : List UInt32) :
    (pack fingerprint ns).length = 4 + 4 * ns.length := by
  rw [pack, List.length_append, h, length_packPath]

theorem unpack_pack {fingerprint : Bytes} (h : fingerprint.length = 4) (ns : List UInt32) :
    unpack (pack fingerprint ns) = .ok (fingerprint, ns) := by
  have hlen := length_pack h ns
  have htake : (pack fingerprint ns).take 4 = fingerprint := by rw [pack, ← h, List.take_left]
  have hdrop : (pack fingerprint ns).drop 4 = packPath ns := by rw [pack, ← h, List.drop_left]
  rw [unpack, if_neg (by omega), htake, hdrop, unpackPath_packPath]

theorem exists_pack_eq {j : Nat} {packed : Bytes} (h : packed.length = 4 + 4 * j) :
    ∃ fingerprint ns, fingerprint.length = 4 ∧ pack fingerprint ns = packed := by
  have hdrop : (packed.drop 4).length = 4 * j := by rw [List.length_drop]; omega
  obtain ⟨ns, hns⟩ := exists_packPath_eq hdrop
  refine ⟨packed.take 4, ns, by rw [List.length_take]; omega, ?_⟩
  rw [pack, hns, List.take_append_drop]

theorem unpack_eq_ok_iff {packed fingerprint : Bytes} {ns : List UInt32} :
    unpack packed = .ok (fingerprint, ns) ↔
      fingerprint.length = 4 ∧ packed = pack fingerprint ns := by
  constructor
  · intro h
    have hlen : ¬ (packed.length < 4 ∨ packed.length % 4 ≠ 0) := by
      intro hbad
      rw [unpack, if_pos hbad] at h
      cases h
    have hj : packed.length = 4 + 4 * (packed.length / 4 - 1) := by omega
    obtain ⟨xfp, path, hxfp, rfl⟩ := exists_pack_eq hj
    rw [unpack_pack hxfp] at h
    cases h
    exact ⟨hxfp, rfl⟩
  · rintro ⟨hf, rfl⟩
    exact unpack_pack hf ns

/-! ### Origins with leaf hashes -/

/-- What can be packed with leaf hashes. -/
structure TapParts (leafHashes : List Bytes) (fingerprint : Bytes) : Prop where
  length_leafHash : ∀ h ∈ leafHashes, h.length = leafHashLength
  length_fingerprint : fingerprint.length = 4
  count_lt : leafHashes.length < Bytes.wordCount 8

section
variable {leafHashes : List Bytes} {fingerprint : Bytes}

theorem length_packTap_tail (hhashes : ∀ h ∈ leafHashes, h.length = leafHashLength)
    (hf : fingerprint.length = 4) (ns : List UInt32) :
    (leafHashes.flatten ++ pack fingerprint ns).length =
      32 * leafHashes.length + 4 + 4 * ns.length := by
  rw [List.length_append, Bytes.length_flatten hhashes, length_pack hf, leafHashLength,
    Nat.add_assoc]

theorem unpackTap_packTap (h : TapParts leafHashes fingerprint) (ns : List UInt32) :
    unpackTap (packTap leafHashes fingerprint ns) = .ok (leafHashes, fingerprint, ns) := by
  have hpacked : packTap leafHashes fingerprint ns =
      CompactSize.encode leafHashes.length ++ (leafHashes.flatten ++ pack fingerprint ns) :=
    List.append_assoc ..
  have hflat := Bytes.length_flatten h.length_leafHash
  have htail := length_packTap_tail h.length_leafHash h.length_fingerprint ns
  obtain ⟨marker, more, hform, -⟩ := CompactSize.eq_encode_iff.1 ⟨rfl, h.count_lt⟩
  have hlong : ¬ (packTap leafHashes fingerprint ns).length < 5 := by
    rw [hpacked, List.length_append, htail, hform, List.length_cons]
    omega
  obtain ⟨t, ht, hadv⟩ := (CompactSize.reads_readOr .valueLengthMissing).complete
    (Stream.plain_ofBytes _) ⟨rfl, h.count_lt⟩ ((Stream.rest_ofBytes _).trans hpacked)
  have hrest : t.rest = leafHashes.flatten ++ pack fingerprint ns :=
    hadv.rest_of_append ((Stream.rest_ofBytes _).trans hpacked)
  rw [unpackTap, if_neg hlong, CompactSize.run_readOr_eq_ok_iff.1 ht]
  dsimp only
  rw [if_neg (by rw [← Stream.length_rest, hrest, htail, leafHashLength]; omega), hrest,
    Nat.mul_comm, ← hflat, List.drop_left, List.take_left, unpack_pack h.length_fingerprint,
    Bytes.pieces_flatten (by decide) h.length_leafHash]
  rfl

theorem exists_packTap_eq {m j : Nat} {rest : Bytes} (hm : m < Bytes.wordCount 8)
    (h : rest.length = 32 * m + 4 + 4 * j) :
    ∃ leafHashes fingerprint ns, TapParts leafHashes fingerprint ∧
      packTap leafHashes fingerprint ns = CompactSize.encode m ++ rest := by
  have htake : (rest.take (32 * m)).length = 32 * m := by rw [List.length_take]; omega
  have hdrop : (rest.drop (32 * m)).length = 4 + 4 * j := by rw [List.length_drop]; omega
  obtain ⟨hashes, rfl, hhashes, hflat⟩ := Bytes.exists_flatten_eq htake
  obtain ⟨xfp, ns, hxfp, hpack⟩ := exists_pack_eq hdrop
  refine ⟨hashes, xfp, ns, ⟨hhashes, hxfp, hm⟩, ?_⟩
  rw [packTap, List.append_assoc, hflat, hpack, List.take_append_drop]

/-- What is accepted has a size in front that its length agrees with. -/
theorem exists_of_unpackTap {packed : Bytes} {parts : List Bytes × Bytes × List UInt32}
    (h : unpackTap packed = .ok parts) :
    ∃ m j rest, m < Bytes.wordCount 8 ∧ packed = CompactSize.encode m ++ rest ∧
      rest.length = 32 * m + 4 + 4 * j := by
  have hlong : ¬ packed.length < 5 := by
    intro hshort
    rw [unpackTap, if_pos hshort] at h
    cases h
  rw [unpackTap, if_neg hlong] at h
  rcases hread : Stream.run CompactSize.read (.ofBytes packed) with ⟨fault | _ | m, t⟩ <;>
    simp only [hread] at h
  · cases h
  · cases h
  · obtain ⟨bs, ⟨rfl, hm⟩, hadv⟩ := (CompactSize.reads_readOr .valueLengthMissing).sound
      (CompactSize.run_readOr_eq_ok_iff.2 hread)
    split at h
    · cases h
    next hsize =>
      rcases hu : unpack (t.rest.drop (m * leafHashLength)) with fault | ⟨xfp, ns⟩
      · rw [hu] at h
        cases h
      · obtain ⟨hxfp, hpack⟩ := unpack_eq_ok_iff.1 hu
        have hlen := congrArg List.length hpack
        rw [List.length_drop, length_pack hxfp, leafHashLength] at hlen
        exact ⟨m, ns.length, t.rest, hm, hadv.rest_eq, by omega⟩

theorem unpackTap_eq_ok_iff {packed : Bytes} {ns : List UInt32} :
    unpackTap packed = .ok (leafHashes, fingerprint, ns) ↔
      TapParts leafHashes fingerprint ∧ packed = packTap leafHashes fingerprint ns := by
  constructor
  · intro h
    obtain ⟨m, j, rest, hm, rfl, hrest⟩ := exists_of_unpackTap h
    obtain ⟨hashes, xfp, path, hparts, hpack⟩ := exists_packTap_eq hm hrest
    rw [← hpack, unpackTap_packTap hparts] at h
    cases h
    exact ⟨hparts, hpack.symm⟩
  · rintro ⟨hparts, rfl⟩
    exact unpackTap_packTap hparts ns

end

end PartialTx.Origin
