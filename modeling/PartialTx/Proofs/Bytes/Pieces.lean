import PartialTx.Bytes.Basic

/-! Cutting byte strings into pieces of one width is the inverse of joining them. -/

namespace PartialTx.Bytes

variable {width : Nat}

theorem piecesOnto_of_le {bs : Bytes} (hw : 0 < width) (h : width ≤ bs.length)
    (done : List Bytes) :
    piecesOnto width done bs = piecesOnto width (bs.take width :: done) (bs.drop width) := by
  have hp : (bs.take width).length = width := by rw [List.length_take, Nat.min_eq_left h]
  conv => lhs; rw [piecesOnto]
  rw [dif_pos ⟨hw, hp⟩]

theorem piecesOnto_of_lt {bs : Bytes} (h : bs.length < width) (done : List Bytes) :
    piecesOnto width done bs = done.reverse := by
  have hp : ¬ (0 < width ∧ (bs.take width).length = width) := by
    rw [List.length_take]
    omega
  rw [piecesOnto, dif_neg hp]

theorem piecesOnto_eq (hw : 0 < width) (done : List Bytes) (bs : Bytes) :
    piecesOnto width done bs = done.reverse ++ pieces width bs := by
  induction hn : bs.length using Nat.strongRecOn generalizing done bs with
  | ind n ih =>
    unfold pieces
    by_cases h : width ≤ bs.length
    · have hlt : (bs.drop width).length < n := by rw [List.length_drop]; omega
      rw [piecesOnto_of_le hw h, piecesOnto_of_le hw h, ih _ hlt _ _ rfl,
        ih _ hlt [bs.take width] _ rfl, List.reverse_cons, List.append_assoc]
      rfl
    · rw [piecesOnto_of_lt (by omega), piecesOnto_of_lt (by omega), List.reverse_nil,
        List.append_nil]

theorem pieces_append {piece : Bytes} (hw : 0 < width) (hp : piece.length = width) (bs : Bytes) :
    pieces width (piece ++ bs) = piece :: pieces width bs := by
  have hle : width ≤ (piece ++ bs).length := by rw [List.length_append]; omega
  have htake : (piece ++ bs).take width = piece := by rw [← hp, List.take_left]
  have hdrop : (piece ++ bs).drop width = bs := by rw [← hp, List.drop_left]
  rw [pieces, piecesOnto_of_le hw hle, htake, hdrop]
  exact piecesOnto_eq hw [piece] bs

/-- Joined pieces come apart again. -/
theorem pieces_flatten (hw : 0 < width) {ps : List Bytes} (hps : ∀ p ∈ ps, p.length = width) :
    pieces width ps.flatten = ps := by
  induction ps with
  | nil => exact piecesOnto_of_lt hw []
  | cons p ps ih =>
    obtain ⟨hp, hps⟩ := List.forall_mem_cons.1 hps
    rw [List.flatten_cons, pieces_append hw hp, ih hps]

/-- A byte string of a whole number of widths is made of pieces. -/
theorem exists_flatten_eq {n : Nat} {bs : Bytes} (h : bs.length = width * n) :
    ∃ ps : List Bytes, ps.length = n ∧ (∀ p ∈ ps, p.length = width) ∧ ps.flatten = bs := by
  induction n generalizing bs with
  | zero => exact ⟨[], rfl, by simp, (List.eq_nil_of_length_eq_zero h).symm⟩
  | succ n ih =>
    rw [Nat.mul_succ] at h
    have hdrop : (bs.drop width).length = width * n := by rw [List.length_drop]; omega
    obtain ⟨ps, hn, hps, hflat⟩ := ih hdrop
    have hlen : (bs.take width).length = width := by rw [List.length_take]; omega
    refine ⟨bs.take width :: ps, by rw [List.length_cons, hn],
      List.forall_mem_cons.2 ⟨hlen, hps⟩, ?_⟩
    rw [List.flatten_cons, hflat, List.take_append_drop]

theorem length_flatten {ps : List Bytes} (hps : ∀ p ∈ ps, p.length = width) :
    ps.flatten.length = width * ps.length := by
  induction ps with
  | nil => rfl
  | cons p ps ih =>
    obtain ⟨hp, hps⟩ := List.forall_mem_cons.1 hps
    rw [List.flatten_cons, List.length_append, hp, ih hps, List.length_cons, Nat.mul_succ,
      Nat.add_comm]

end PartialTx.Bytes
