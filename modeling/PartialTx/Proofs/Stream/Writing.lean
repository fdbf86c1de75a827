import PartialTx.Stream

/-! Writing at the end of a stream. As long as no call is refused, chunks that are written one
after another put their bytes behind what was there, and the stream stands at its new end. If a
call is refused, the chunks before it are there, and nothing else. -/

namespace PartialTx.Stream

/-- An open stream whose position is its end. -/
structure AtEnd (s : Stream) : Prop where
  isOpen : s.isOpen
  position_eq : s.position = s.content.length

/-- The next so many calls to write are not refused. -/
def Accepts (s : Stream) (count : Nat) : Prop := ∀ left, s.writesLeft = some left → count ≤ left

/-- `t` is `s` after chunks have been written at its end. -/
structure Appended (s t : Stream) (chunks : List Bytes) : Prop where
  content_eq : t.content = s.content ++ chunks.flatten
  atEnd : t.AtEnd
  writesLeft_eq : t.writesLeft = s.writesLeft.map (· - chunks.length)
  calls_eq : t.calls = (chunks.map Call.write).reverse ++ s.calls

theorem overwrite_length (content bytes : Bytes) :
    overwrite content content.length bytes = content ++ bytes := by
  unfold overwrite
  split
  next h => rw [List.isEmpty_iff.1 h, List.append_nil]
  next => simp

theorem accepts_of_none {s : Stream} (h : s.writesLeft = none) (count : Nat) : s.Accepts count := by
  intro left hleft
  rw [h] at hleft
  cases hleft

namespace Appended

variable {s t u : Stream} {xs ys : List Bytes}

theorem refl (hs : s.AtEnd) : Appended s s [] where
  content_eq := (List.append_nil _).symm
  atEnd := hs
  writesLeft_eq := by cases s.writesLeft <;> rfl
  calls_eq := rfl

theorem trans (h : Appended s t xs) (h' : Appended t u ys) : Appended s u (xs ++ ys) where
  content_eq := by rw [h'.content_eq, h.content_eq, List.flatten_append, List.append_assoc]
  atEnd := h'.atEnd
  writesLeft_eq := by
    rw [h'.writesLeft_eq, h.writesLeft_eq, Option.map_map, List.length_append]
    congr 1
    funext left
    exact Nat.sub_sub left xs.length ys.length
  calls_eq := by
    rw [h'.calls_eq, h.calls_eq, List.map_append, List.reverse_append, List.append_assoc]

/-- What is not refused beforehand is not refused later on. -/
theorem accepts (h : Appended s t xs) {count : Nat} (hs : s.Accepts (xs.length + count)) :
    t.Accepts count := by
  intro left hleft
  rw [h.writesLeft_eq, Option.map_eq_some_iff] at hleft
  obtain ⟨before, hbefore, rfl⟩ := hleft
  have := hs before hbefore
  omega

end Appended

theorem run_write_eq (bytes : Bytes) (s : Stream) :
    run (write bytes) s =
      if s.writesLeft = some 0 then (.error .writeRefused, s)
      else
        s.countWrite.whenOpen <|
          match s.fit bytes with
          | .error fault => (.error fault, s.countWrite)
          | .ok bytes => (.ok (), s.countWrite.wrote bytes) := rfl

theorem run_write {s : Stream} (hs : s.AtEnd) (haccepts : s.Accepts 1) (bytes : Bytes) :
    ∃ t, run (write bytes) s = (.ok (), t) ∧ Appended s t [bytes] := by
  have hleft : ¬ s.writesLeft = some 0 := fun h => absurd (haccepts 0 h) (by decide)
  have hcontent : (s.countWrite.wrote bytes).content = s.content ++ bytes := by
    show overwrite s.content s.position bytes = _
    rw [hs.position_eq, overwrite_length]
  refine ⟨s.countWrite.wrote bytes, ?_, ?_, ⟨hs.isOpen, ?_⟩, rfl, rfl⟩
  · rw [run_write_eq, if_neg hleft, fit_of_le (Nat.le_of_eq hs.position_eq)]
    exact if_pos hs.isOpen
  · rw [hcontent, List.flatten_singleton]
  · rw [hcontent, List.length_append, ← hs.position_eq]
    rfl

theorem writeAll_cons (bytes : Bytes) (chunks : List Bytes) :
    writeAll (bytes :: chunks) = write bytes >>= fun _ => writeAll chunks := rfl

theorem run_writeAll {s : Stream} (hs : s.AtEnd) {chunks : List Bytes}
    (haccepts : s.Accepts chunks.length) :
    ∃ t, run (writeAll chunks) s = (.ok (), t) ∧ Appended s t chunks := by
  induction chunks generalizing s with
  | nil => exact ⟨s, rfl, .refl hs⟩
  | cons bytes chunks ih =>
    rw [List.length_cons, Nat.add_comm] at haccepts
    have hone : s.Accepts 1 := fun left h => Nat.le_trans (Nat.le_add_right 1 _) (haccepts left h)
    obtain ⟨t, ht, hst⟩ := run_write hs hone bytes
    obtain ⟨u, hu, htu⟩ := ih hst.atEnd (hst.accepts haccepts)
    refine ⟨u, ?_, hst.trans htu⟩
    rw [writeAll_cons, run_bind, ht]
    exact hu

/-- A stream that refuses all calls but the next so many takes so many chunks, and no others. -/
theorem run_writeAll_of_writesLeft {s : Stream} (hs : s.AtEnd) {n : Nat}
    (hn : s.writesLeft = some n) (chunks : List Bytes) :
    ∃ t, run (writeAll chunks) s =
        (if chunks.length ≤ n then .ok () else .error .writeRefused, t) ∧
      Appended s t (chunks.take n) := by
  have haccepts {count : Nat} (h : count ≤ n) : s.Accepts count := fun left hleft =>
    Option.some.inj (hn.symm.trans hleft) ▸ h
  by_cases hlen : chunks.length ≤ n
  · obtain ⟨t, ht, hst⟩ := run_writeAll hs (haccepts hlen)
    refine ⟨t, ?_, ?_⟩
    · rw [ht, if_pos hlen]
    · rwa [List.take_of_length_le hlen]
  · have htake : (chunks.take n).length = n := List.length_take_of_le (by omega)
    obtain ⟨bytes, rest, hdrop⟩ : ∃ bytes rest, chunks.drop n = bytes :: rest :=
      List.exists_cons_of_ne_nil fun h => hlen (List.drop_eq_nil_iff.1 h)
    have hchunks : writeAll chunks = writeAll (chunks.take n ++ bytes :: rest) := by
      rw [← hdrop, List.take_append_drop]
    obtain ⟨t, ht, hst⟩ := run_writeAll hs (haccepts (Nat.le_of_eq htake))
    have hleft : t.writesLeft = some 0 := by
      rw [hst.writesLeft_eq, hn, htake, Option.map_some, Nat.sub_self]
    refine ⟨t, ?_, hst⟩
    -- the chunks that are accepted leave no call for the one behind them
    rw [hchunks, writeAll_append, run_bind, ht]
    dsimp only
    rw [writeAll_cons, run_bind, run_write_eq, if_pos hleft, if_neg hlen]

end PartialTx.Stream
