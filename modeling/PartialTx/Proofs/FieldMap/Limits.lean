import PartialTx.Proofs.FieldMap

/-! Reading a map twice, under limits and under limits that are no lower. Sizes are compared with
a limit and with nothing else, so that the two readings go on alike up to a size that the lower
limit refuses. -/

namespace PartialTx

namespace Stream

section
variable {α β : Type} {refused : Fault → Prop}

/-- From every stream the first action does as the second, or it is refused. -/
def SameUnless (refused : Fault → Prop) (x y : StreamM α) : Prop :=
  ∀ s, run x s = run y s ∨ ∃ fault, (run x s).1 = .error fault ∧ refused fault

theorem SameUnless.refl (x : StreamM α) : SameUnless refused x x := fun _ => .inl rfl

theorem SameUnless.throw {fault : Fault} (h : refused fault) (y : StreamM α) :
    SameUnless refused (throw fault) y := fun _ => .inr ⟨fault, rfl, h⟩

/-- Where the first action succeeds, the second does as well and comes to the same. -/
theorem SameUnless.run_eq_ok {x y : StreamM α} (h : SameUnless refused x y) {s t : Stream} {a : α}
    (hx : run x s = (.ok a, t)) : run y s = (.ok a, t) := by
  obtain heq | ⟨fault, hfault, -⟩ := h s
  · exact heq.symm.trans hx
  · rw [hx] at hfault
    cases hfault

/-- What is refused in front stays refused, and what goes on alike goes on from the same stream. -/
theorem SameUnless.bind {x y : StreamM α} {f g : α → StreamM β} (h : SameUnless refused x y)
    (hnext : ∀ a, SameUnless refused (f a) (g a)) : SameUnless refused (x >>= f) (y >>= g) := by
  intro s
  rw [run_bind, run_bind]
  obtain heq | ⟨fault, hfault, hrefused⟩ := h s
  · rw [heq]
    rcases run y s with ⟨fault | a, t⟩
    · exact .inl rfl
    · exact hnext a t
  · rcases hx : run x s with ⟨cause | a, t⟩ <;> rw [hx] at hfault <;> cases hfault
    exact .inr ⟨fault, rfl, hrefused⟩

end

end Stream

namespace Field

open PartialTx.Stream (SameUnless)

section
variable {refused : Fault → Prop} {L L' : Int} (hL : L ≤ L')
include hL

theorem sameUnless_readWithin {tooLong : Nat → Value → Fault} {size : Nat}
    (hrefused : L < size → refused (tooLong size (.int L))) :
    SameUnless refused (readWithin (.int L) tooLong size) (readWithin (.int L') tooLong size) := by
  rw [readWithin_eq, readWithin_eq]
  by_cases hlow : L < size
  · rw [if_pos hlow]
    exact .throw (hrefused hlow) _
  · have hhigh : ¬ L' < size := by omega
    rw [if_neg hlow, if_neg hhigh]
    exact .refl _

theorem sameUnless_readSized {tooLong : Nat → Value → Fault} (missing : Fault)
    (hrefused : ∀ size : Nat, L < size → refused (tooLong size (.int L))) :
    SameUnless refused (readSized (.int L) missing tooLong)
      (readSized (.int L') missing tooLong) := by
  rw [readSized_eq, readSized_eq]
  exact .bind (.refl _) fun size => sameUnless_readWithin hL (hrefused size)

end

section
variable {K K' V V' : Int} (hK : K ≤ K') (hV : V ≤ V')
include hK

theorem sameUnless_readKey : SameUnless (TooLong K V) (readKey (.int K)) (readKey (.int K')) := by
  refine .bind (.refl _) fun got => ?_
  rcases got with _ | ⟨code, got⟩
  · exact .refl _
  · dsimp only
    split
    · exact .refl _
    · exact .bind (sameUnless_readSized hK _ fun size h => .key h) fun key => .refl _

include hV

theorem sameUnless_read :
    SameUnless (TooLong K V) (read (.upTo K V)) (read (.upTo K' V')) := by
  refine .bind (sameUnless_readKey hK) fun head => ?_
  rcases head with _ | ⟨code, key⟩
  · exact .refl _
  · exact .bind (sameUnless_readSized hV _ fun size h => .value h) fun value => .refl _

end

end Field

namespace FieldMap

/-- Reading under limits does as reading under limits that are no lower, or a size is above one
of the limits. Until then both have read the same fields. -/
theorem populate_eq_or_tooLong {σ : Type} (store : σ → Field → Except Fault σ)
    {K K' V V' : Int} (hK : K ≤ K') (hV : V ≤ V') (p : Progress σ) :
    populate store (.upTo K V) p = populate store (.upTo K' V') p ∨
      ∃ fault, (populate store (.upTo K V) p).1 = .error fault ∧ TooLong K V fault ∧
        (populate store (.upTo K V) p).2.fields <:+ (populate store (.upTo K' V') p).2.fields := by
  have hread := Field.sameUnless_read hK hV
  -- as long as no size is refused, both readings take the same fields off the same streams
  induction p using loop_induction store (.upTo K V) with
  | stops p q outcome hstops =>
    obtain heq | ⟨fault, hfault, hlong⟩ := hread p.stream
    · exact .inl (hstops.populate_eq.trans (hstops.of_run_eq heq).populate_eq.symm)
    · rw [hstops.populate_eq]
      cases hstops with
      | unread hlow =>
        rw [hlow] at hfault
        cases hfault
        exact .inr ⟨fault, rfl, hlong, fields_isSuffix store (.upTo K' V') p⟩
      | separator hlow | refused hlow _ =>
        rw [hlow] at hfault
        cases hfault
  | next p f t state hlow hstore ih =>
    rw [populate_of_read hlow hstore, populate_of_read (hread.run_eq_ok hlow) hstore]
    exact ih

end FieldMap

end PartialTx
