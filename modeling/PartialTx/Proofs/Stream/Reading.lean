import PartialTx.Stream

/-! What a reading action takes off a stream. An action reads a language if it succeeds
on the byte strings of the language alone, takes exactly such a string off the stream,
and succeeds wherever a stream that answers in full has one in front. Languages follow
the shape of the action: a sequence of actions reads the concatenations. Such a
language is a prefix code. -/

namespace PartialTx.Stream

variable {α β : Type}

/-- `t` is `s` after some bytes have been read off it. -/
structure Advance (s t : Stream) (bs : Bytes) : Prop where
  rest_eq : s.rest = bs ++ t.rest
  content_eq : t.content = s.content
  position_eq : t.position = s.position + bs.length
  isOpen_eq : t.isOpen = s.isOpen
  answer_eq : t.answer = s.answer

/-- An open stream none of whose reads fails by itself. -/
structure Responsive (s : Stream) : Prop where
  isOpen : s.isOpen
  answer_ne (k : Nat) (fault : Fault) : s.answer k ≠ .fail fault

/-- An open stream that hands out as much as it is asked for. -/
structure Plain (s : Stream) : Prop where
  isOpen : s.isOpen
  answer_eq (k : Nat) : s.answer k = .full

theorem plain_ofBytes (content : Bytes) : (ofBytes content).Plain := ⟨rfl, fun _ => rfl⟩

theorem Plain.responsive {s : Stream} (h : s.Plain) : s.Responsive :=
  ⟨h.isOpen, fun k _ hfail => nomatch (h.answer_eq k).symm.trans hfail⟩

theorem rest_ofBytes (content : Bytes) : (ofBytes content).rest = content := rfl

namespace Advance

variable {s t u : Stream} {bs cs : Bytes}

theorem refl (s : Stream) : Advance s s [] := ⟨rfl, rfl, rfl, rfl, rfl⟩

theorem trans (h : Advance s t bs) (h' : Advance t u cs) : Advance s u (bs ++ cs) where
  rest_eq := by rw [h.rest_eq, h'.rest_eq, List.append_assoc]
  content_eq := h'.content_eq.trans h.content_eq
  position_eq := by rw [h'.position_eq, h.position_eq, List.length_append, Nat.add_assoc]
  isOpen_eq := h'.isOpen_eq.trans h.isOpen_eq
  answer_eq := h'.answer_eq.trans h.answer_eq

theorem took {rest : Bytes} (h : s.rest = bs ++ rest) (size : Int) :
    Advance s (s.took size bs.length) bs where
  rest_eq := by rw [rest_took, h, List.drop_left]
  content_eq := rfl
  position_eq := rfl
  isOpen_eq := rfl
  answer_eq := rfl

theorem plain (h : Advance s t bs) (hs : s.Plain) : t.Plain :=
  ⟨h.isOpen_eq.trans hs.isOpen, fun k => (congrFun h.answer_eq k).trans (hs.answer_eq k)⟩

/-- Reading what is in front of the rest leaves the rest. -/
theorem rest_of_append {rest : Bytes} (h : Advance s t bs) (hs : s.rest = bs ++ rest) :
    t.rest = rest :=
  List.append_cancel_left (h.rest_eq.symm.trans hs)

end Advance

/-! ### Single reads -/

/-- No answer makes a size greater, or negative. -/
theorem capped_natCast (s : Stream) (n : Nat) : 0 ≤ s.capped n ∧ s.capped n ≤ n := by
  unfold capped
  split <;> (try split) <;> omega

/-- A read of a size that a stream can be asked for is not refused, unless the answer is a
fault. -/
theorem Responsive.refusal?_eq_none {s : Stream} (h : s.Responsive) {n : Nat}
    (hn : n < Value.sizeBound) : s.refusal? n = none := by
  have hsize : Value.isSize (s.capped n) = true := by
    have := s.capped_natCast n
    simp only [Value.isSize, Bool.and_eq_true, decide_eq_true_eq]
    omega
  unfold refusal?
  split
  next fault hfail => exact absurd hfail (h.answer_ne _ fault)
  all_goals
    rw [hsize, h.isOpen]
    rfl

theorem run_read_of_responsive {s : Stream} (h : s.Responsive) {n : Nat}
    (hn : n < Value.sizeBound) :
    run (read n) s = (.ok (s.available n), s.took n (s.available n).length) := by
  rw [run_read, h.refusal?_eq_none hn]

theorem Plain.available {s : Stream} (h : s.Plain) (n : Nat) : s.available n = s.rest.take n := by
  have hcapped : s.capped n = n := by rw [capped, nextAnswer, h.answer_eq]
  rw [Stream.available, hcapped, if_neg (by omega), Int.toNat_natCast]

/-- A plain stream gives what it is asked for, or all that it has. -/
theorem run_read_of_plain {s : Stream} (h : s.Plain) {n : Nat} (hn : n < Value.sizeBound) :
    run (read n) s = (.ok (s.rest.take n), s.took n (s.rest.take n).length) := by
  rw [run_read_of_responsive h.responsive hn, h.available]

theorem run_read_one {s : Stream} (h : s.Plain) {b : UInt8} {rest : Bytes}
    (hrest : s.rest = [b] ++ rest) :
    ∃ t, run (read 1) s = (.ok [b], t) ∧ Advance s t [b] := by
  have hr := run_read_of_plain h (n := 1) (by decide)
  rw [hrest] at hr
  exact ⟨_, hr, .took hrest 1⟩

/-- What a read gets is in front of the rest of the stream, and no more than was asked for. -/
theorem advance_of_run_read {s t : Stream} {n : Nat} {got : Bytes}
    (h : run (read n) s = (.ok got, t)) : Advance s t got ∧ got.length ≤ n := by
  have hpre : s.available n <+: s.rest := by
    unfold available
    split
    · exact List.prefix_rfl
    · exact List.take_prefix ..
  have hlen : (s.available n).length ≤ n := by
    have hcapped := s.capped_natCast n
    rw [available, if_neg (by omega), List.length_take]
    omega
  rw [run_read] at h
  split at h
  · simp at h
  · obtain ⟨hgot, rfl⟩ := Prod.mk.inj h
    cases hgot
    obtain ⟨rest, hrest⟩ := hpre
    exact ⟨.took hrest.symm n, hlen⟩

/-! ### Languages -/

/-- The action succeeds on the byte strings of the language alone, and on each of them where
it stands in front of a plain stream. -/
structure Reads (x : StreamM α) (L : Bytes → α → Prop) : Prop where
  sound : ∀ {s t a}, run x s = (.ok a, t) → ∃ bs, L bs a ∧ Advance s t bs
  complete : ∀ {s bs rest a}, s.Plain → L bs a → s.rest = bs ++ rest →
    ∃ t, run x s = (.ok a, t) ∧ Advance s t bs

namespace Reads

theorem congr {x : StreamM α} {L M : Bytes → α → Prop} (h : Reads x L)
    (hLM : ∀ bs a, L bs a ↔ M bs a) : Reads x M where
  sound hx := by
    obtain ⟨bs, hL, hs⟩ := h.sound hx
    exact ⟨bs, (hLM _ _).1 hL, hs⟩
  complete hs hM hrest := h.complete hs ((hLM _ _).2 hM) hrest

theorem pure (a : α) : Reads (pure a : StreamM α) fun bs b => bs = [] ∧ b = a where
  sound hx := by
    obtain ⟨hb, rfl⟩ := Prod.mk.inj hx
    cases hb
    exact ⟨[], ⟨rfl, rfl⟩, .refl _⟩
  complete := by
    rintro s bs rest b - ⟨rfl, rfl⟩ -
    exact ⟨s, rfl, .refl s⟩

theorem throw (fault : Fault) : Reads (throw fault : StreamM α) fun _ _ => False where
  sound hx := by simp at hx
  complete := by rintro _ _ _ _ - ⟨⟩

theorem bind {x : StreamM α} {f : α → StreamM β} {L : Bytes → α → Prop}
    {M : α → Bytes → β → Prop} (hx : Reads x L) (hf : ∀ a, Reads (f a) (M a)) :
    Reads (x >>= f) fun bs b => ∃ a cs ds, bs = cs ++ ds ∧ L cs a ∧ M a ds b where
  sound {s t b} h := by
    rw [run_bind] at h
    rcases hr : run x s with ⟨fault | a, u⟩ <;> simp only [hr] at h
    · simp at h
    · obtain ⟨cs, hL, hsu⟩ := hx.sound hr
      obtain ⟨ds, hM, hut⟩ := (hf a).sound h
      exact ⟨cs ++ ds, ⟨a, cs, ds, rfl, hL, hM⟩, hsu.trans hut⟩
  complete := by
    rintro s _ rest b hs ⟨a, cs, ds, rfl, hL, hM⟩ hrest
    rw [List.append_assoc] at hrest
    obtain ⟨u, hu, hsu⟩ := hx.complete hs hL hrest
    obtain ⟨t, ht, hut⟩ := (hf a).complete (hsu.plain hs) hM (hsu.rest_of_append hrest)
    exact ⟨t, by simp only [run_bind, hu, ht], hsu.trans hut⟩

theorem ite {c : Prop} [Decidable c] {x y : StreamM α} {L M : Bytes → α → Prop}
    (hx : c → Reads x L) (hy : ¬ c → Reads y M) :
    Reads (if c then x else y) fun bs a => if c then L bs a else M bs a := by
  by_cases h : c
  · simpa only [if_pos h] using hx h
  · simpa only [if_neg h] using hy h

/-- A read of a size reads the byte strings of this length. -/
theorem readExactly {n : Nat} (hn : n < Value.sizeBound) :
    Reads (Stream.readExactly n) fun bs got => bs = got ∧ got.length = n where
  sound {s t got} h := by
    rw [Stream.readExactly, run_bind] at h
    rcases hr : run (read n) s with ⟨fault | bs, u⟩ <;> simp only [hr] at h
    · simp at h
    · split at h
      next hlen =>
        obtain ⟨hgot, rfl⟩ := Prod.mk.inj h
        cases hgot
        exact ⟨_, ⟨rfl, hlen⟩, (advance_of_run_read hr).1⟩
      next => simp at h
  complete := by
    rintro s bs rest _ hs ⟨rfl, hlen⟩ hrest
    have htake : s.rest.take n = bs := by rw [hrest, ← hlen, List.take_left]
    refine ⟨s.took n bs.length, ?_, .took hrest n⟩
    rw [Stream.readExactly, run_bind, run_read_of_plain hs hn]
    simp only [htake, hlen, if_true, run_pure]

/-- An action on the next byte, which fails where there is none. -/
theorem head {fault : Fault} {f : UInt8 → StreamM α} {L : UInt8 → Bytes → α → Prop}
    (hf : ∀ b, Reads (f b) (L b)) :
    Reads (do match ← read 1 with | [] => MonadExcept.throw fault | b :: _ => f b)
      fun bs a => ∃ b cs, bs = b :: cs ∧ L b cs a where
  sound {s t a} h := by
    rw [run_bind] at h
    rcases hr : run (read 1) s with ⟨fault | _ | ⟨b, got⟩, u⟩ <;> simp only [hr] at h
    · simp at h
    · simp at h
    · obtain ⟨hsu, hlen⟩ := advance_of_run_read (n := 1) hr
      have hgot : got = [] := by
        rw [List.length_cons] at hlen
        exact List.eq_nil_of_length_eq_zero (by omega)
      subst hgot
      obtain ⟨cs, hL, hut⟩ := (hf b).sound h
      exact ⟨b :: cs, ⟨b, cs, rfl, hL⟩, hsu.trans hut⟩
  complete := by
    rintro s _ rest a hs ⟨b, cs, rfl, hL⟩ hrest
    obtain ⟨u, hu, hsu⟩ := run_read_one hs hrest
    obtain ⟨t, ht, hut⟩ := (hf b).complete (hsu.plain hs) hL (hsu.rest_of_append hrest)
    exact ⟨t, by simp only [run_bind, hu, ht], hsu.trans hut⟩

/-- A language that can be read is a prefix code: what is in front of a byte string is
determined by it. -/
theorem unique {x : StreamM α} {L : Bytes → α → Prop} (h : Reads x L) {bs cs rest rest' : Bytes}
    {a b : α} (ha : L bs a) (hb : L cs b) (heq : bs ++ rest = cs ++ rest') :
    bs = cs ∧ a = b ∧ rest = rest' := by
  have hs := plain_ofBytes (bs ++ rest)
  obtain ⟨t, ht, hst⟩ := h.complete hs ha (rest_ofBytes _)
  obtain ⟨u, hu, hsu⟩ := h.complete hs hb ((rest_ofBytes _).trans heq)
  obtain ⟨hab, rfl⟩ := Prod.mk.inj (ht.symm.trans hu)
  have hbs : bs = cs := List.append_cancel_right (hst.rest_eq.symm.trans hsu.rest_eq)
  subst hbs
  exact ⟨rfl, Except.ok.inj hab, List.append_cancel_left heq⟩

end Reads

end PartialTx.Stream
