import Mathlib.Data.List.Forall2
import PartialTx.Fault

/-! Steps that may fail. A sequence of steps succeeds if each of them does, and what it comes to
is told by what they come to. -/

namespace PartialTx

theorem bind_eq_ok_iff {α β : Type} {x : Except Fault α} {f : α → Except Fault β} {b : β} :
    x >>= f = .ok b ↔ ∃ a, x = .ok a ∧ f a = .ok b := by
  rcases x with fault | a
  · exact ⟨nofun, nofun⟩
  · exact ⟨fun h => ⟨a, rfl, h⟩, fun ⟨_, ha, h⟩ => Except.ok.inj ha ▸ h⟩

/-- A call behind a check whose fault tells of something that may itself fail. -/
theorem guarded_eq_ok_iff {α β : Type} {c : Prop} [Decidable c] {x : Except Fault β}
    {y : Except Fault α} {fault : α → Fault} {b : β} :
    (if c then x else do throw (fault (← y))) = .ok b ↔ c ∧ x = .ok b := by
  by_cases hc : c
  · rw [if_pos hc]
    exact (and_iff_right hc).symm
  · rw [if_neg hc]
    refine ⟨fun h => ?_, fun h => absurd h.1 hc⟩
    obtain ⟨a, -, h⟩ := bind_eq_ok_iff.1 h
    cases h

/-! ### Lists -/

/-- A list is gone through if each of its elements is. -/
theorem mapM_eq_ok_iff {α β : Type} {f : α → Except Fault β} {as : List α} {bs : List β} :
    as.mapM f = .ok bs ↔ List.Forall₂ (fun a b => f a = .ok b) as bs := by
  induction as generalizing bs with
  | nil =>
    rw [List.forall₂_nil_left_iff]
    exact ⟨fun h => (Except.ok.inj h).symm, fun h => h ▸ rfl⟩
  | cons a as ih =>
    rw [List.mapM_cons, List.forall₂_cons_left_iff]
    simp only [← ih]
    rcases f a with fault | b
    · simp [bind, Except.bind]
    · rcases as.mapM f with fault | cs <;> simp [bind, Except.bind, pure, Except.pure, eq_comm]

theorem mapM_map_eq_ok_map {α β γ : Type} {f : β → Except Fault γ} {g : α → β} {k : α → γ}
    {as : List α} (h : ∀ a ∈ as, f (g a) = .ok (k a)) : (as.map g).mapM f = .ok (as.map k) := by
  rw [mapM_eq_ok_iff, List.forall₂_map_left_iff, List.forall₂_map_right_iff]
  exact List.forall₂_same.2 h

/-- What each of some entries is read back from, they are read back from together. -/
theorem mapM_map_eq_ok {α β : Type} {f : α → Except Fault β} {g : β → α} {bs : List β}
    (h : ∀ b ∈ bs, f (g b) = .ok b) : (bs.map g).mapM f = .ok bs := by
  rw [mapM_map_eq_ok_map h, List.map_id']

/-- A list that cannot be gone through has an element that stops it. -/
theorem exists_of_mapM_error {α β : Type} {f : α → Except Fault β} {as : List α} {fault : Fault}
    (h : as.mapM f = .error fault) : ∃ a ∈ as, f a = .error fault := by
  induction as with
  | nil => cases h
  | cons a as ih =>
    rw [List.mapM_cons] at h
    rcases hf : f a with cause | b <;> rw [hf] at h
    · cases h
      exact ⟨a, List.mem_cons_self, hf⟩
    · rcases hrest : as.mapM f with cause | bs <;> rw [hrest] at h
      · cases h
        obtain ⟨c, hc, hfault⟩ := ih hrest
        exact ⟨c, List.mem_cons_of_mem a hc, hfault⟩
      · cases h

/-- The first element that stops a list decides how. -/
theorem mapM_append_error {α β : Type} {f : α → Except Fault β} {as : List α} {a : α}
    {bs : List α} {fault : Fault} (has : ∀ b ∈ as, ∃ c, f b = .ok c) (ha : f a = .error fault) :
    (as ++ a :: bs).mapM f = .error fault := by
  induction as with
  | nil =>
    rw [List.nil_append, List.mapM_cons, ha]
    rfl
  | cons b as ih =>
    obtain ⟨⟨c, hb⟩, has⟩ := List.forall_mem_cons.1 has
    rw [List.cons_append, List.mapM_cons, hb, ih has]
    rfl

/-- A fold keeps what each of its steps keeps. -/
theorem foldlM_keeps {α σ : Type} {step : σ → α → Except Fault σ} {P : σ → Prop}
    (hstep : ∀ s a t, P s → step s a = .ok t → P t) {as : List α} {s t : σ} (hs : P s)
    (h : as.foldlM step s = .ok t) : P t := by
  induction as generalizing s with
  | nil =>
    cases h
    exact hs
  | cons a as ih =>
    rw [List.foldlM_cons] at h
    obtain ⟨u, hu, h⟩ := bind_eq_ok_iff.1 h
    exact ih (hstep s a u hs hu) h

end PartialTx
