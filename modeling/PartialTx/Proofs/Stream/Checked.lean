import PartialTx.Proofs.Stream.Reading

/-! Actions that check each read. Such an action takes the next byte, or so many bytes in
one read, and breaks off where the stream has fewer. What it comes to is settled by the
bytes that it takes: it comes to the same whatever follows them, and it breaks off on a
stream that ends within them. Where no read fails by itself, it fails only with faults
of its own or because the stream has ended. -/

namespace PartialTx

/-- If it fails, then with a fault of its own. -/
def FailsOnly {α : Type} (own : Fault → Prop) (x : Except Fault α) : Prop :=
  ∀ fault, x = .error fault → own fault

/-- If it fails, then with a fault that only reading a map gives rise to. -/
abbrev CodecOnly {α : Type} (x : Except Fault α) : Prop := FailsOnly (fun fault => fault.isCodec) x

namespace FailsOnly

variable {α β : Type} {own : Fault → Prop}

theorem ok (a : α) : FailsOnly own (.ok a : Except Fault α) := nofun

theorem error {fault : Fault} (h : own fault) : FailsOnly own (.error fault : Except Fault α) :=
  fun _ heq => Except.error.inj heq ▸ h

theorem bind {x : Except Fault α} {f : α → Except Fault β} (hx : FailsOnly own x)
    (hf : ∀ a, x = .ok a → FailsOnly own (f a)) : FailsOnly own (x >>= f) := by
  rcases x with fault | a
  · exact error (hx fault rfl)
  · exact hf a rfl

theorem ite {c : Prop} [Decidable c] {x y : Except Fault α} (hx : c → FailsOnly own x)
    (hy : ¬ c → FailsOnly own y) : FailsOnly own (if c then x else y) := by
  by_cases h : c
  · simpa only [if_pos h] using hx h
  · simpa only [if_neg h] using hy h

end FailsOnly

namespace Stream

variable {α β ρ σ : Type}

/-- An action made of checked reads of at most so many bytes each, with faults of its own. -/
inductive Checked (own : Fault → Prop) (bound : Nat) : {α : Type} → StreamM α → Prop
  | pure {α : Type} (a : α) : Checked own bound (pure a)
  | throw {α : Type} {fault : Fault} (h : own fault) : Checked own bound (throw fault : StreamM α)
  | head {α : Type} {missing : Fault} {f : UInt8 → StreamM α}
      (hm : missing.kind = .unexpectedEnd) (hf : ∀ b, Checked own bound (f b)) :
    Checked own bound (do match ← read 1 with | [] => MonadExcept.throw missing | b :: _ => f b)
  | readExactly {size : Nat} (h : size ≤ bound) : Checked own bound (readExactly size)
  | bind {α β : Type} {x : StreamM α} {f : α → StreamM β} (hx : Checked own bound x)
      (hf : ∀ a, Checked own bound (f a)) : Checked own bound (x >>= f)

variable {own : Fault → Prop}

theorem Checked.ite {bound : Nat} {c : Prop} [Decidable c] {x y : StreamM α}
    (hx : c → Checked own bound x) (hy : ¬ c → Checked own bound y) :
    Checked own bound (if c then x else y) := by
  by_cases h : c
  · simpa only [if_pos h] using hx h
  · simpa only [if_neg h] using hy h

/-! ### What settles a reading -/

/-- A reading that broke off because the stream had ended. -/
def Ended (x : Except Fault α) : Prop := ∃ fault, x = .error fault ∧ fault.kind = .unexpectedEnd

/-- The bytes settle what comes of a reading. Where they are in front of a plain stream, it
takes them and no more, whatever follows them; where the stream ends within them, it breaks
off. -/
structure Settles (reading : Stream → ρ × Stream) (ended : ρ → Prop) (bs : Bytes) (result : ρ) :
    Prop where
  takes : ∀ {s rest}, s.Plain → s.rest = bs ++ rest →
    ∃ t, reading s = (result, t) ∧ Advance s t bs
  ends : ∀ {s more}, s.Plain → bs = s.rest ++ more → more ≠ [] → ended (reading s).1

/-- From a stream the reading breaks off, or what it comes to is settled by what it takes. -/
def SettledAt (reading : Stream → ρ × Stream) (ended : ρ → Prop) (s : Stream) : Prop :=
  ended (reading s).1 ∨
    ∃ bs, Settles reading ended bs (reading s).1 ∧ Advance s (reading s).2 bs

/-- A reading that does not break off is settled by what it takes off the stream. -/
def Causal (reading : Stream → ρ × Stream) (ended : ρ → Prop) : Prop :=
  ∀ s, s.Plain → SettledAt reading ended s

/-- What a reading comes to that leaves the stream alone. -/
theorem settles_nil {reading : Stream → ρ × Stream} {ended : ρ → Prop} {result : ρ}
    (h : ∀ s, s.Plain → reading s = (result, s)) : Settles reading ended [] result where
  takes := fun hs _ => ⟨_, h _ hs, .refl _⟩
  ends := fun _ hmore hne => absurd (List.append_eq_nil_iff.1 hmore.symm).2 hne

/-- Cutting off within two byte strings cuts off within the first, or behind it within the
second. -/
theorem append_eq_append_cut {bs cs rest more : Bytes} (h : bs ++ cs = rest ++ more) :
    (∃ left, left ≠ [] ∧ bs = rest ++ left) ∨ ∃ front, rest = bs ++ front ∧ cs = front ++ more := by
  obtain ⟨front, hrest, hcs⟩ | ⟨left, hbs, hmore⟩ := List.append_eq_append_iff.1 h
  · exact .inr ⟨front, hrest, hcs⟩
  · by_cases hl : left = []
    · rw [hl, List.append_nil] at hbs
      rw [hl, List.nil_append] at hmore
      exact .inr ⟨[], by rw [hbs, List.append_nil], hmore.symm⟩
    · exact .inl ⟨left, hl, hbs⟩

theorem Ended.bind {x : StreamM α} {f : α → StreamM β} {s : Stream} (h : Ended (run x s).1) :
    Ended (run (x >>= f) s).1 := by
  obtain ⟨fault, hfault, hkind⟩ := h
  refine ⟨fault, ?_, hkind⟩
  rw [run_bind]
  rcases hx : run x s with ⟨_ | _, t⟩ <;> rw [hx] at hfault <;> cases hfault
  rfl

section
variable {first : Stream → ρ × Stream} {whole next : Stream → σ × Stream} {ended : ρ → Prop}
  {ended' : σ → Prop} {bs cs : Bytes} {middle : ρ} {result : σ} {s t : Stream}

/-- A reading that goes on as another one where a first one has come to something. -/
theorem Settles.trans (h : Settles first ended bs middle) (h' : Settles next ended' cs result)
    (hended : ∀ {s}, ended (first s).1 → ended' (whole s).1)
    (hnext : ∀ {s t}, first s = (middle, t) → whole s = next t) :
    Settles whole ended' (bs ++ cs) result where
  takes {s rest} hs hrest := by
    rw [List.append_assoc] at hrest
    obtain ⟨u, hu, hsu⟩ := h.takes hs hrest
    obtain ⟨t, ht, hut⟩ := h'.takes (hsu.plain hs) (hsu.rest_of_append hrest)
    exact ⟨t, (hnext hu).trans ht, hsu.trans hut⟩
  ends {s more} hs hmore hne := by
    obtain ⟨left, hleft, hbs⟩ | ⟨front, hrest, hcs⟩ := append_eq_append_cut hmore
    · exact hended (h.ends hs hbs hleft)
    · obtain ⟨u, hu, hsu⟩ := h.takes hs hrest
      rw [hnext hu]
      exact h'.ends (hsu.plain hs) (hsu.rest_of_append hrest ▸ hcs) hne

namespace SettledAt

theorem trans (h : SettledAt first ended s) (hs : s.Plain) (hfirst : first s = (middle, t))
    (h' : t.Plain → SettledAt next ended' t)
    (hended : ∀ {s}, ended (first s).1 → ended' (whole s).1)
    (hnext : ∀ {s t}, first s = (middle, t) → whole s = next t) : SettledAt whole ended' s := by
  obtain hend | ⟨bs, hset, hadv⟩ := h
  · exact .inl (hended hend)
  · rw [hfirst] at hset hadv
    rw [SettledAt, hnext hfirst]
    refine (h' (hadv.plain hs)).imp id ?_
    rintro ⟨cs, hset', hadv'⟩
    exact ⟨bs ++ cs, hset.trans hset' hended hnext, hadv.trans hadv'⟩

/-- A reading that stops where a first one has come to something. -/
theorem stop (h : SettledAt first ended s) (hs : s.Plain) (hfirst : first s = (middle, t))
    (hended : ∀ {s}, ended (first s).1 → ended' (whole s).1)
    (hstop : ∀ {s t}, first s = (middle, t) → whole s = (result, t)) :
    SettledAt whole ended' s := by
  have hrest : t.Plain → SettledAt (fun t => (result, t)) ended' t := fun _ =>
    .inr ⟨[], settles_nil fun _ _ => rfl, .refl t⟩
  exact h.trans hs hfirst hrest hended hstop

end SettledAt

end

namespace Causal

theorem pure (a : α) : Causal (run (pure a)) Ended := fun s _ =>
  .inr ⟨[], settles_nil fun _ _ => rfl, .refl s⟩

theorem throw (fault : Fault) : Causal (run (throw fault : StreamM α)) Ended := fun s _ =>
  .inr ⟨[], settles_nil fun _ _ => rfl, .refl s⟩

theorem bind {x : StreamM α} {f : α → StreamM β} (hx : Causal (run x) Ended)
    (hf : ∀ a, Causal (run (f a)) Ended) : Causal (run (x >>= f)) Ended := by
  intro s hs
  rcases hr : run x s with ⟨fault | a, t⟩
  · exact (hx s hs).stop hs hr Ended.bind fun h => by rw [run_bind, h]
  · exact (hx s hs).trans hs hr (hf a t) Ended.bind fun h => by rw [run_bind, h]

/-- The next byte is taken first, and what follows is as causal as it is. -/
theorem head {missing : Fault} {f : UInt8 → StreamM α} (hm : missing.kind = .unexpectedEnd)
    (hf : ∀ b, Causal (run (f b)) Ended) :
    Causal (run (do match ← read 1 with | [] => MonadExcept.throw missing | b :: _ => f b))
      Ended := by
  have hempty {s : Stream} (hs : s.Plain) (hrest : s.rest = []) :
      Ended (run (do
        match ← read 1 with | [] => MonadExcept.throw missing | b :: _ => f b) s).1 := by
    refine ⟨missing, ?_, hm⟩
    have hr := run_read_of_plain hs (n := 1) (by decide)
    rw [hrest] at hr
    rw [run_bind, show run (read 1) s = _ from hr]
    rfl
  intro s hs
  rcases hrest : s.rest with _ | ⟨b, rest⟩
  · exact .inl (hempty hs hrest)
  · obtain ⟨u, hu, hsu⟩ := run_read_one hs hrest
    rw [SettledAt, run_bind, hu]
    refine (hf b u (hsu.plain hs)).imp id ?_
    rintro ⟨cs, hset, hadv⟩
    refine ⟨b :: cs, ⟨fun {t rest'} ht hrest' => ?_, fun {t more} ht hmore hne => ?_⟩,
      hsu.trans hadv⟩
    · obtain ⟨v, hv, htv⟩ := run_read_one ht hrest'
      obtain ⟨w, hw, hvw⟩ := hset.takes (htv.plain ht) (htv.rest_of_append hrest')
      exact ⟨w, by rw [run_bind, hv]; exact hw, htv.trans hvw⟩
    · rcases ht' : t.rest with _ | ⟨c, rest'⟩
      · exact hempty ht ht'
      · obtain ⟨v, hv, htv⟩ := run_read_one ht ht'
        rw [ht'] at hmore
        obtain ⟨rfl, hcs⟩ := List.cons.inj hmore
        rw [run_bind, hv]
        exact hset.ends (htv.plain ht) (htv.rest_of_append ht' ▸ hcs) hne

theorem readExactly {size : Nat} (hsize : size < Value.sizeBound) :
    Causal (run (readExactly size)) Ended := by
  have hshort {s : Stream} (hs : s.Plain) (hlen : s.rest.length < size) :
      Ended (run (Stream.readExactly size) s).1 := by
    have htake : s.rest.take size = s.rest := List.take_of_length_le (by omega)
    refine ⟨.shortRead size s.rest.length, ?_, rfl⟩
    rw [Stream.readExactly, run_bind, run_read_of_plain hs hsize, htake]
    simp only [if_neg (Nat.ne_of_lt hlen), run_throw]
  intro s hs
  by_cases hlen : s.rest.length < size
  · exact .inl (hshort hs hlen)
  · have hgot : (s.rest.take size).length = size := List.length_take_of_le (by omega)
    have hcomplete {t : Stream} {rest : Bytes} (ht : t.Plain)
        (hrest : t.rest = s.rest.take size ++ rest) :=
      (Reads.readExactly hsize).complete (a := s.rest.take size) ht ⟨rfl, hgot⟩ hrest
    obtain ⟨u, hu, hsu⟩ := hcomplete hs (List.take_append_drop size s.rest).symm
    rw [SettledAt, hu]
    refine .inr ⟨_, ⟨hcomplete, fun {t more} ht hmore hne => hshort ht ?_⟩, hsu⟩
    have hlens := congrArg List.length hmore
    have hpos := List.length_pos_iff.2 hne
    rw [List.length_append] at hlens
    omega

/-- On a byte string a causal reading looks at nothing behind where it stops, and breaks off on
anything shorter. -/
theorem of_take {reading : Stream → ρ × Stream} {ended : ρ → Prop} (h : Causal reading ended)
    {raw : Bytes} {result : ρ} {t : Stream} (hr : reading (.ofBytes raw) = (result, t))
    (hresult : ¬ ended result) :
    (∀ more, ∃ u, reading (.ofBytes (raw.take t.position ++ more)) = (result, u) ∧
      u.position = t.position) ∧
    ∀ q < t.position, ended (reading (.ofBytes (raw.take q))).1 := by
  have hplain (bs : Bytes) := plain_ofBytes bs
  obtain hended | ⟨bs, hset, hadv⟩ := h _ (hplain raw)
  · rw [hr] at hended
    exact absurd hended hresult
  · rw [hr] at hset hadv
    have hraw : raw = bs ++ t.rest := hadv.rest_eq
    have hpos : t.position = bs.length := hadv.position_eq.trans (Nat.zero_add _)
    refine ⟨fun more => ?_, fun q hq => ?_⟩
    · obtain ⟨u, hu, hadv'⟩ := hset.takes (hplain (bs ++ more)) rfl
      refine ⟨u, ?_, hadv'.position_eq.trans (hpos ▸ Nat.zero_add _)⟩
      rw [hraw, hpos, List.take_left, hu]
    · rw [hpos] at hq
      have htake : raw.take q = bs.take q := by
        rw [hraw, List.take_append_of_le_length (Nat.le_of_lt hq)]
      rw [htake]
      refine hset.ends (hplain _) (List.take_append_drop q bs).symm fun hnil => ?_
      rw [List.drop_eq_nil_iff] at hnil
      omega

end Causal

/-- An action made of checked reads is causal. -/
theorem Checked.causal {bound : Nat} {x : StreamM α} (h : Checked own bound x)
    (hb : bound < Value.sizeBound) : Causal (run x) Ended := by
  induction h with
  | pure a => exact .pure a
  | throw _ => exact .throw _
  | head hm _ ih => exact .head hm ih
  | readExactly hsize => exact .readExactly (Nat.lt_of_le_of_lt hsize hb)
  | bind _ _ ihx ihf => exact ihx.bind ihf

/-! ### Faults -/

/-- On an open stream whose reads do not fail by themselves, the action fails only with faults
of its own, and leaves such a stream. -/
def FailsBy (own : Fault → Prop) (x : StreamM α) : Prop :=
  ∀ s, s.Responsive → (run x s).2.Responsive ∧ FailsOnly own (run x s).1

theorem Responsive.took {s : Stream} (h : s.Responsive) (size : Int) (got : Nat) :
    (s.took size got).Responsive := ⟨h.isOpen, h.answer_ne⟩

theorem FailsBy.bind {x : StreamM α} {f : α → StreamM β} (hx : FailsBy own x)
    (hf : ∀ a, FailsBy own (f a)) : FailsBy own (x >>= f) := by
  intro s hs
  obtain ⟨ht, hfault⟩ := hx s hs
  rw [run_bind]
  rcases hr : run x s with ⟨fault | a, t⟩ <;> rw [hr] at ht hfault
  · exact ⟨ht, .error (hfault fault rfl)⟩
  · exact hf a t ht

theorem Checked.failsBy {bound : Nat} {x : StreamM α} (h : Checked own bound x)
    (hown : ∀ fault : Fault, fault.kind = .unexpectedEnd → own fault)
    (hb : bound < Value.sizeBound) : FailsBy own x := by
  induction h with
  | pure a => exact fun s hs => ⟨hs, .ok a⟩
  | throw hfault => exact fun s hs => ⟨hs, .error hfault⟩
  | head hm _ ih =>
    intro s hs
    rw [run_bind, show run (read 1) s = _ from run_read_of_responsive hs (n := 1) (by decide)]
    have htook := hs.took (1 : Nat) (s.available (1 : Nat)).length
    rcases hgot : s.available (1 : Nat) with _ | ⟨b, got⟩ <;> rw [hgot] at htook
    · exact ⟨htook, .error (hown _ hm)⟩
    · exact ih b _ htook
  | readExactly hsize =>
    intro s hs
    rw [Stream.readExactly, run_bind, run_read_of_responsive hs (Nat.lt_of_le_of_lt hsize hb)]
    dsimp only
    split
    · exact ⟨hs.took _ _, .ok _⟩
    · exact ⟨hs.took _ _, .error (hown _ rfl)⟩
  | bind _ _ ihx ihf => exact ihx.bind ihf

end Stream

end PartialTx
