import PartialTx.Proofs.Stream.Checked

/-! Streams that hand out few bytes a read. Reads are not tried again, so a reading that asks for
more than the cap gets a short answer. An action that checks each read notices the first such
answer and breaks off there; until then it does the same under the cap as without it. -/

namespace PartialTx

/-- A call that asks for at most so many bytes. -/
def Call.UpTo (cap : Nat) : Call → Prop
  | .read size _ => size ≤ cap
  | .write _ => True

instance (cap : Nat) (call : Call) : Decidable (call.UpTo cap) :=
  match call with
  | .read size _ => inferInstanceAs (Decidable (size ≤ cap))
  | .write _ => .isTrue trivial

namespace Stream

variable {α β ρ σ : Type}

/-- The stream as one that hands out at most so many bytes a read. -/
def capAt (cap : Nat) (s : Stream) : Stream := { s with answer := fun _ => .atMost cap }

/-- No call on record has asked for more than so many bytes. -/
def Modest (cap : Nat) (s : Stream) : Prop := ∀ call ∈ s.calls, call.UpTo cap

section
variable {cap : Nat} {s t : Stream}

theorem modest_took (size : Int) (got : Nat) :
    (s.took size got).Modest cap ↔ size ≤ cap ∧ s.Modest cap := List.forall_mem_cons

theorem Modest.of_suffix (h : t.Modest cap) (hcalls : s.calls <:+ t.calls) : s.Modest cap :=
  fun call hmem => h call (hcalls.subset hmem)

/-- What a read gets under a cap. -/
theorem run_read_capAt (hs : s.Plain) {n : Nat} (hn : n < Value.sizeBound) :
    run (read n) (s.capAt cap) =
      (.ok (s.rest.take (min n cap)),
        (s.took n (s.rest.take (min n cap)).length).capAt cap) := by
  have hcapped : (s.capAt cap).capped n = (min n cap : Nat) := by
    show (if (n : Int) < 0 then (cap : Int) else min n cap) = _
    omega
  have hresponsive : (s.capAt cap).Responsive := ⟨hs.isOpen, nofun⟩
  have hgot : (s.capAt cap).available n = s.rest.take (min n cap) := by
    rw [available, hcapped, if_neg (by omega), Int.toNat_natCast]
    rfl
  rw [run_read_of_responsive hresponsive hn, hgot]
  rfl

/-- A read of a size that the cap allows gets the same with it as without it. -/
theorem run_read_capAt_of_le (hs : s.Plain) {n : Nat} (hn : n < Value.sizeBound) (hle : n ≤ cap) :
    run (read n) (s.capAt cap) =
      (.ok (s.rest.take n), (s.took n (s.rest.take n).length).capAt cap) := by
  rw [run_read_capAt hs hn, Nat.min_eq_left hle]

end

/-! ### Calls on record -/

/-- Whatever comes of a reading, the calls made before it stay on record. -/
def Records (reading : Stream → ρ × Stream) : Prop := ∀ s, s.calls <:+ (reading s).2.calls

theorem records_read (size : Int) : Records (run (read size)) := by
  intro s
  rw [run_read]
  split
  · exact List.suffix_refl _
  · exact List.suffix_cons _ _

theorem Records.bind {x : StreamM α} {f : α → StreamM β} (hx : Records (run x))
    (hf : ∀ a, Records (run (f a))) : Records (run (x >>= f)) := by
  intro s
  have h := hx s
  rw [run_bind]
  rcases hr : run x s with ⟨fault | a, t⟩ <;> rw [hr] at h
  · exact h
  · exact h.trans (hf a t)

theorem Checked.records {own : Fault → Prop} {bound : Nat} {x : StreamM α}
    (h : Checked own bound x) :
    Records (run x) := by
  induction h with
  | pure a => exact fun s => List.suffix_refl _
  | throw _ => exact fun s => List.suffix_refl _
  | head _ _ ih =>
    refine (records_read 1).bind fun got => ?_
    rcases got with _ | ⟨b, got⟩
    · exact fun s => List.suffix_refl _
    · exact ih b
  | readExactly _ =>
    refine (records_read _).bind fun got => ?_
    split <;> exact fun s => List.suffix_refl _
  | bind _ _ ihx ihf => exact ihx.bind ihf

/-! ### Short answers -/

/-- Under the cap a reading from the stream comes to the same if it makes no read of more than the
cap, and otherwise it breaks off. -/
def Notices (cap : Nat) (reading : Stream → ρ × Stream) (ended : ρ → Prop) (s : Stream) : Prop :=
  ((reading s).2.Modest cap ∧
      reading (s.capAt cap) = ((reading s).1, (reading s).2.capAt cap)) ∨
    ¬ (reading s).2.Modest cap ∧ ended (reading (s.capAt cap)).1

section
variable {cap : Nat} {first : Stream → ρ × Stream} {whole next : Stream → σ × Stream}
  {ended : ρ → Prop} {ended' : σ → Prop} {middle : ρ} {result : σ} {s t : Stream}

/-- A reading that goes on as another one where a first one has come to something. -/
theorem Notices.trans (h : Notices cap first ended s) (hfirst : first s = (middle, t))
    (h' : t.Modest cap → Notices cap next ended' t) (hrecords : Records next)
    (hended : ∀ {s}, ended (first s).1 → ended' (whole s).1)
    (hnext : ∀ {s t}, first s = (middle, t) → whole s = next t) : Notices cap whole ended' s := by
  rw [Notices, hfirst] at h
  rw [Notices, hnext hfirst]
  obtain ⟨hmodest, hsame⟩ | ⟨hmodest, hend⟩ := h
  · rw [hnext hsame]
    exact h' hmodest
  · exact .inr ⟨fun hlast => hmodest (hlast.of_suffix (hrecords t)), hended hend⟩

/-- A reading that stops where a first one has come to something. -/
theorem Notices.stop (h : Notices cap first ended s) (hfirst : first s = (middle, t))
    (hended : ∀ {s}, ended (first s).1 → ended' (whole s).1)
    (hstop : ∀ {s t}, first s = (middle, t) → whole s = (result, t)) :
    Notices cap whole ended' s := by
  have hdone (ht : t.Modest cap) : Notices cap (fun t => (result, t)) ended' t := .inl ⟨ht, rfl⟩
  exact h.trans hfirst hdone (fun _ => List.suffix_refl _) hended hstop

end

/-- The next byte is not there under a cap of nothing. -/
theorem notices_head {cap : Nat} {missing : Fault} {f : UInt8 → StreamM α}
    (hm : missing.kind = .unexpectedEnd) {s : Stream} (hs : s.Plain) (hmodest : s.Modest cap)
    (hf : ∀ b t, t.Plain → t.Modest cap → Notices cap (run (f b)) Ended t)
    (hrecords : ∀ b, Records (run (f b))) :
    Notices cap (run (do match ← read 1 with | [] => MonadExcept.throw missing | b :: _ => f b))
      Ended s := by
  let g : Bytes → StreamM α := fun got =>
    match got with | [] => MonadExcept.throw missing | b :: _ => f b
  have hg (got : Bytes) : Records (run (g got)) := by
    rcases got with _ | ⟨b, got⟩
    · exact fun s => List.suffix_refl _
    · exact hrecords b
  show Notices cap (run (read (1 : Nat) >>= g)) Ended s
  have hread := run_read_of_plain hs (n := 1) (by decide)
  have htook : (s.took (1 : Nat) (s.rest.take 1).length).Modest cap ↔ _ := modest_took _ _
  rw [Notices, run_bind, hread, run_bind]
  by_cases hcap : 1 ≤ cap
  · rw [run_read_capAt_of_le hs (by decide) hcap]
    have hmodest' := htook.2 ⟨by omega, hmodest⟩
    rcases hrest : s.rest with _ | ⟨b, rest⟩ <;> rw [hrest] at hmodest'
    · exact .inl ⟨hmodest', rfl⟩
    · exact hf b _ ⟨hs.isOpen, hs.answer_eq⟩ hmodest'
  · have hzero : min 1 cap = 0 := by omega
    rw [run_read_capAt hs (by decide), hzero, List.take_zero]
    refine .inr ⟨fun hlast => ?_, missing, rfl, hm⟩
    have hsize := (htook.1 (hlast.of_suffix (hg _ _))).1
    omega

/-- A short answer to a read of a size is refused. -/
theorem notices_readExactly {cap size : Nat} (hsize : size < Value.sizeBound) {s : Stream}
    (hs : s.Plain) (hmodest : s.Modest cap) :
    Notices cap (run (readExactly size)) Ended s := by
  have htook : (s.took size (s.rest.take size).length).Modest cap ↔ _ := modest_took _ _
  rw [Notices, readExactly, run_bind, run_bind, run_read_of_plain hs hsize]
  by_cases hcap : size ≤ cap
  · rw [run_read_capAt_of_le hs hsize hcap]
    have hmodest' := htook.2 ⟨by omega, hmodest⟩
    dsimp only
    split <;> exact .inl ⟨hmodest', rfl⟩
  · have hshort : (s.rest.take (min size cap)).length ≠ size := by
      rw [List.length_take]
      omega
    rw [run_read_capAt hs hsize]
    dsimp only
    rw [if_neg hshort]
    refine .inr ⟨fun hlast => ?_, _, rfl, rfl⟩
    split at hlast
    all_goals
      have hle := (htook.1 hlast).1
      omega

/-- A plain stream stays one as long as the action does not fail. -/
theorem Checked.plain_of_run {own : Fault → Prop} {bound : Nat} {x : StreamM α}
    (h : Checked own bound x) (hb : bound < Value.sizeBound) {s t : Stream} (hs : s.Plain) {a : α}
    (hr : run x s = (.ok a, t)) : t.Plain := by
  have hsettled := h.causal hb s hs
  rw [SettledAt, hr] at hsettled
  obtain ⟨fault, hfault, -⟩ | ⟨bs, -, hadv⟩ := hsettled
  · cases hfault
  · exact hadv.plain hs

/-- An action made of checked reads notices every short answer. -/
theorem Checked.notices {own : Fault → Prop} {bound cap : Nat} {x : StreamM α}
    (h : Checked own bound x) (hb : bound < Value.sizeBound) {s : Stream} (hs : s.Plain)
    (hmodest : s.Modest cap) : Notices cap (run x) Ended s := by
  induction h generalizing s with
  | pure a => exact .inl ⟨hmodest, rfl⟩
  | throw _ => exact .inl ⟨hmodest, rfl⟩
  | head hm hf ih =>
    exact notices_head hm hs hmodest (fun b _ ht hmodest' => ih b ht hmodest')
      fun b => (hf b).records
  | readExactly hsize => exact notices_readExactly (Nat.lt_of_le_of_lt hsize hb) hs hmodest
  | @bind _ _ x f hx hf ihx ihf =>
    rcases hr : run x s with ⟨fault | a, t⟩
    · exact (ihx hs hmodest).stop hr Ended.bind fun h => by rw [run_bind, h]
    · have hplain := hx.plain_of_run hb hs hr
      exact (ihx hs hmodest).trans hr (ihf a hplain) (hf a).records Ended.bind
        fun h => by rw [run_bind, h]

end Stream

end PartialTx
