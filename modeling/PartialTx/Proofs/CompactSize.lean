import PartialTx.CompactSize
import PartialTx.Proofs.Stream.Reading

/-! The forms of sizes. Every size below `Bytes.wordCount 8` has one form, and reading
accepts the forms alone, so that each size can be read in one way. -/

namespace PartialTx.CompactSize

open PartialTx.Stream (Reads)

/-! ### Markers -/

theorem payload?_eq_none_iff {marker : UInt8} : payload? marker = none ↔ marker.toNat < 0xfd := by
  have h := marker.toNat_lt
  simp only [payload?, ← UInt8.toNat_inj]
  split
  next h1 => simp [h1]
  next h1 =>
    split
    next h2 => simp [h2]
    next h2 =>
      split
      next h3 => simp [h3]
      next h3 =>
        have h1 : marker.toNat ≠ 253 := h1
        have h2 : marker.toNat ≠ 254 := h2
        have h3 : marker.toNat ≠ 255 := h3
        simp only [true_iff]
        omega

/-- A marker announces two, four or eight bytes. -/
theorem payload?_eq_some {marker : UInt8} {width least : Nat}
    (h : payload? marker = some (width, least)) :
    marker = 0xfd ∧ width = 2 ∧ least = 0xfd ∨ marker = 0xfe ∧ width = 4 ∧ least = 0x10000 ∨
      marker = 0xff ∧ width = 8 ∧ least = 0x100000000 := by
  unfold payload? at h
  split at h
  next hm => simp_all
  next =>
    split at h
    next hm => simp_all
    next =>
      split at h
      next hm => simp_all
      next => simp at h

theorem width_le {marker : UInt8} {width least : Nat}
    (h : payload? marker = some (width, least)) : width ≤ 8 := by
  obtain ⟨-, rfl, -⟩ | ⟨-, rfl, -⟩ | ⟨-, rfl, -⟩ := payload?_eq_some h <;> decide

theorem width_lt {marker : UInt8} {width least : Nat}
    (h : payload? marker = some (width, least)) : width < Value.sizeBound :=
  Nat.lt_of_le_of_lt (width_le h) (by decide)

/-! ### Forms -/

theorem encode_of_lt {n : Nat} (h : n < 0xfd) : encode n = [UInt8.ofNat n] := by
  rw [encode, if_pos h]
  rfl

/-- A size with a marker, if the marker's word can hold it and no shorter one can. -/
theorem encode_of_payload {marker : UInt8} {width least n : Nat}
    (h : payload? marker = some (width, least)) (hl : least ≤ n) (hn : n < Bytes.wordCount width) :
    encode n = marker :: Bytes.ofWord width n := by
  have h2 : Bytes.wordCount 2 = 0x10000 := rfl
  have h4 : Bytes.wordCount 4 = 0x100000000 := rfl
  unfold encode
  obtain ⟨rfl, rfl, rfl⟩ | ⟨rfl, rfl, rfl⟩ | ⟨rfl, rfl, rfl⟩ := payload?_eq_some h
  · rw [if_neg (by omega), if_pos (by omega)]
  · rw [if_neg (by omega), if_neg (by omega), if_pos (by omega)]
  · rw [if_neg (by omega), if_neg (by omega), if_neg (by omega)]

theorem exists_payload {n : Nat} (h : ¬ n < 0xfd) (hn : n < Bytes.wordCount 8) :
    ∃ marker width least, payload? marker = some (width, least) ∧ least ≤ n ∧
      n < Bytes.wordCount width := by
  have h2 : Bytes.wordCount 2 = 0x10000 := rfl
  have h4 : Bytes.wordCount 4 = 0x100000000 := rfl
  by_cases hw2 : n < 0x10000
  · exact ⟨0xfd, 2, 0xfd, rfl, by omega, by omega⟩
  · by_cases hw4 : n < 0x100000000
    · exact ⟨0xfe, 4, 0x10000, rfl, by omega, by omega⟩
    · exact ⟨0xff, 8, 0x100000000, rfl, by omega, hn⟩

/-- A form is a byte below the markers, or a marker with a word that is not too small. -/
theorem eq_encode_iff {bs : Bytes} {n : Nat} :
    bs = encode n ∧ n < Bytes.wordCount 8 ↔
      ∃ marker tail, bs = marker :: tail ∧
        match payload? marker with
        | none => tail = [] ∧ n = marker.toNat
        | some (width, least) => tail.length = width ∧ n = Bytes.toWord tail ∧ least ≤ n := by
  constructor
  · rintro ⟨rfl, hn⟩
    by_cases hlt : n < 0xfd
    · have hb : (UInt8.ofNat n).toNat = n := UInt8.toNat_ofNat_of_lt' (by simp only [UInt8.size]; omega)
      refine ⟨_, _, encode_of_lt hlt, ?_⟩
      rw [payload?_eq_none_iff.2 (by omega)]
      exact ⟨rfl, hb.symm⟩
    · obtain ⟨marker, width, least, hp, hl, hw⟩ := exists_payload hlt hn
      refine ⟨_, _, encode_of_payload hp hl hw, ?_⟩
      rw [hp]
      exact ⟨Bytes.length_ofWord width n,
        by rw [Bytes.toWord_ofWord, Nat.mod_eq_of_lt hw], hl⟩
  · rintro ⟨marker, tail, rfl, h⟩
    have h8 : Bytes.wordCount 8 = 0x10000000000000000 := rfl
    rcases hp : payload? marker with _ | ⟨width, least⟩
    · rw [hp] at h
      obtain ⟨rfl, rfl⟩ := h
      have hlt := payload?_eq_none_iff.1 hp
      exact ⟨by rw [encode_of_lt hlt, UInt8.ofNat_toNat], by omega⟩
    · rw [hp] at h
      obtain ⟨rfl, rfl, hl⟩ := h
      have hlt := Bytes.toWord_lt tail
      refine ⟨by rw [encode_of_payload hp hl hlt, Bytes.ofWord_toWord], ?_⟩
      have h2 : Bytes.wordCount 2 = 0x10000 := rfl
      have h4 : Bytes.wordCount 4 = 0x100000000 := rfl
      obtain ⟨-, hw, -⟩ | ⟨-, hw, -⟩ | ⟨-, hw, -⟩ := payload?_eq_some hp <;>
        rw [hw] at hlt <;> omega

/-! ### Reading -/

/-- Reads a size that must be there. -/
def readOr (missing : Fault) : StreamM Nat := do
  match ← read with
  | none => throw missing
  | some n => return n

theorem run_readOr_eq_ok_iff {missing : Fault} {s t : Stream} {n : Nat} :
    Stream.run (readOr missing) s = (.ok n, t) ↔ Stream.run read s = (.ok (some n), t) := by
  rw [readOr, Stream.run_bind]
  rcases Stream.run read s with ⟨_ | _ | m, u⟩ <;> simp

theorem readOr_eq (missing : Fault) :
    readOr missing = do
      match ← Stream.read 1 with
      | [] => throw missing
      | marker :: _ =>
        match payload? marker with
        | none => return marker.toNat
        | some (width, least) =>
          let word ← Stream.readExactly width
          if Bytes.toWord word < least then throw (.longForm marker (Bytes.toWord word))
          else return Bytes.toWord word := by
  unfold readOr read
  rw [bind_assoc]
  congr 1
  funext got
  rcases got with _ | ⟨marker, _⟩
  · rfl
  · dsimp only
    rcases payload? marker with _ | ⟨width, least⟩
    · rfl
    · rw [bind_assoc]
      congr 1
      funext word
      split <;> rfl

/-- What is accepted as a size is the form of one. -/
theorem reads_readOr (missing : Fault) :
    Reads (readOr missing) fun bs n => bs = encode n ∧ n < Bytes.wordCount 8 := by
  rw [readOr_eq]
  refine (Reads.head (L := fun marker tail n =>
    match payload? marker with
    | none => tail = [] ∧ n = marker.toNat
    | some (width, least) => tail.length = width ∧ n = Bytes.toWord tail ∧ least ≤ n)
    fun marker => ?_).congr fun bs n => eq_encode_iff.symm
  rcases hp : payload? marker with _ | ⟨width, least⟩
  · exact .pure _
  · have hword (word : Bytes) := Reads.ite (c := Bytes.toWord word < least)
      (fun _ => .throw (.longForm marker (Bytes.toWord word))) (fun _ => .pure (Bytes.toWord word))
    refine (Reads.bind (.readExactly (width_lt hp)) hword).congr fun tail n => ?_
    constructor
    · rintro ⟨_, cs, ds, rfl, ⟨rfl, hlen⟩, hif⟩
      split at hif
      · exact hif.elim
      · obtain ⟨rfl, rfl⟩ := hif
        rw [List.append_nil]
        exact ⟨hlen, rfl, by omega⟩
    · rintro ⟨hlen, rfl, hl⟩
      refine ⟨tail, tail, [], (List.append_nil tail).symm, ⟨rfl, hlen⟩, ?_⟩
      rw [if_neg (by omega)]
      exact ⟨rfl, rfl⟩

/-- Sizes are told apart by what their forms start with. -/
theorem encode_append_inj {m n : Nat} (hm : m < Bytes.wordCount 8) (hn : n < Bytes.wordCount 8)
    {rest rest' : Bytes} (h : encode m ++ rest = encode n ++ rest') : m = n ∧ rest = rest' := by
  obtain ⟨-, hmn, hrest⟩ := (reads_readOr .valueLengthMissing).unique ⟨rfl, hm⟩ ⟨rfl, hn⟩ h
  exact ⟨hmn, hrest⟩

end PartialTx.CompactSize
