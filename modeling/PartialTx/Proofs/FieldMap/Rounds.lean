import PartialTx.Proofs.CompactSize
import PartialTx.Proofs.FieldMap
import PartialTx.Proofs.Stream.Plan

/-! The loop that reads a field map, round by round. Each round asks for at most seven sizes, each
of them checked before it is asked for, and a round that is followed by another has taken a code
and two sizes off the stream. Both hold of any stream, so that what it declares decides neither
how long the loop goes on nor how much is asked for. -/

namespace PartialTx

open PartialTx.Stream (Plan Answered Asked)

/-! ### Plans of the readers

Each reader does what its plan says, and the plan asks for no more than so much whatever it gets. -/

namespace CompactSize

def plan : Plan (Option Nat) := do
  match ← Plan.read 1 with
  | [] => return none
  | marker :: _ =>
    match payload? marker with
    | none => return some marker.toNat
    | some (width, least) =>
      let size := Bytes.toWord (← Plan.readExactly width)
      if size < least then .fail (.longForm marker size) else return some size

theorem action_plan : plan.action = read := by
  rw [plan, Plan.action_bind, Plan.action_read, read]
  congr 1
  funext got
  rcases got with _ | ⟨marker, _⟩
  · rfl
  · dsimp only
    rcases payload? marker with _ | ⟨width, least⟩
    · rfl
    · dsimp only
      rw [Plan.action_bind, Plan.action_readExactly]
      congr 1
      funext word
      split <;> rfl

theorem within_plan {bound : Int} (h : 8 ≤ bound) : plan.Within bound 2 := by
  refine .bind (n := 1) (.read (by omega) (by omega)) fun got => ?_
  rcases got with _ | ⟨marker, _⟩
  · exact .done none
  · dsimp only
    rcases hp : payload? marker with _ | ⟨width, least⟩
    · exact .done _
    · have hwidth := width_le hp
      exact .bind (n := 0) (.readExactly (by omega)) fun word =>
        .ite (fun _ => .fail _) fun _ => .done _

end CompactSize

namespace Field

def planSized (limit : Value) (missing : Fault) (tooLong : Nat → Value → Fault) : Plan Bytes := do
  match ← CompactSize.plan with
  | none => .fail missing
  | some size =>
    if ← Plan.ofExcept (limit.exceededBy size) then .fail (tooLong size limit)
    else Plan.readExactly size

def planKey (limit : Value) : Plan (Option (UInt8 × Bytes)) := do
  match ← Plan.read 1 with
  | [] => .fail .mapUnterminated
  | code :: _ =>
    if code = separator then return none
    else return some (code, ← planSized limit (.keyLengthMissing code) .keyTooLong)

def plan (limits : Limits) : Plan (Option Field) := do
  match ← planKey limits.key with
  | none => return none
  | some (code, key) =>
    let value ← planSized limits.value .valueLengthMissing .valueTooLong
    return some { code, key, value }

theorem action_planSized (limit : Value) (missing : Fault) (tooLong : Nat → Value → Fault) :
    (planSized limit missing tooLong).action = readSized limit missing tooLong := by
  rw [planSized, Plan.action_bind, CompactSize.action_plan, readSized]
  congr 1
  funext size
  rcases size with _ | size
  · rfl
  · dsimp only
    rw [Plan.action_bind, Plan.action_ofExcept]
    congr 1
    funext exceeded
    split
    · rfl
    · exact Plan.action_readExactly size

theorem action_planKey (limit : Value) : (planKey limit).action = readKey limit := by
  rw [planKey, Plan.action_bind, Plan.action_read, readKey]
  congr 1
  funext got
  rcases got with _ | ⟨code, _⟩
  · rfl
  · dsimp only
    split
    · rfl
    · rw [Plan.action_bind, action_planSized]
      rfl

theorem action_plan (limits : Limits) : (plan limits).action = read limits := by
  rw [plan, Plan.action_bind, action_planKey, read]
  congr 1
  funext head
  rcases head with _ | ⟨code, key⟩
  · rfl
  · dsimp only
    rw [Plan.action_bind, action_planSized]
    rfl

/-- A size is compared with the limit before so many bytes are asked for. -/
theorem within_planSized {bound L : Int} (hb : 8 ≤ bound) (hL : L ≤ bound) (missing : Fault)
    (tooLong : Nat → Value → Fault) : (planSized (.int L) missing tooLong).Within bound 3 := by
  refine .bind (n := 1) (CompactSize.within_plan hb) fun size => ?_
  rcases size with _ | size
  · exact .fail missing
  · have hsize (h : ¬ decide (L < size) = true) : (size : Int) ≤ bound := by
      rw [decide_eq_true_eq] at h
      omega
    exact .ite (fun _ => .fail (tooLong size (.int L))) fun h => .readExactly (hsize h)

theorem within_planKey {bound K : Int} (hb : 8 ≤ bound) (hK : K ≤ bound) :
    (planKey (.int K)).Within bound 4 := by
  refine .bind (n := 3) (.read (by omega) (by omega)) fun got => ?_
  rcases got with _ | ⟨code, _⟩
  · exact .fail _
  · exact .ite (fun _ => .done none) fun _ =>
      .bind (n := 0) (within_planSized hb hK _ _) fun key => .done _

theorem within_plan (K V : Int) : (plan (.upTo K V)).Within (max 8 (max K V)) 7 := by
  refine .bind (n := 3) (within_planKey (by omega) (by omega)) fun head => ?_
  rcases head with _ | ⟨code, key⟩
  · exact .done none
  · exact .bind (n := 0) (within_planSized (by omega) (by omega) _ _) fun value => .done _

end Field

/-! ### What a field takes -/

namespace Stream

variable {α β : Type}

/-- Where the action succeeds, it has taken at least as many bytes off the stream as what it comes
to accounts for. -/
def Takes (x : StreamM α) (count : α → Nat) : Prop :=
  ∀ s t a, run x s = (.ok a, t) → t.remaining + count a ≤ s.remaining

theorem Takes.pure {a : α} {count : α → Nat} (h : count a = 0) : Takes (pure a) count := by
  intro s t b hb
  obtain ⟨hb, rfl⟩ := Prod.mk.inj hb
  cases hb
  rw [h]
  exact Nat.le_refl _

theorem Takes.throw (fault : Fault) (count : α → Nat) : Takes (throw fault) count := nofun

theorem Takes.read (size : Int) : Takes (read size) List.length := fun _ _ _ h =>
  Nat.le_of_eq (remaining_of_run_read h)

theorem Forward.takes {x : StreamM α} (h : Forward x) {count : α → Nat}
    (hcount : ∀ a, count a = 0) : Takes x count := by
  intro s t a hx
  have hle := h s
  rw [hx] at hle
  rw [hcount a]
  exact hle

theorem Takes.bind {x : StreamM α} {f : α → StreamM β} {count : α → Nat} {whole : β → Nat}
    (hx : Takes x count) (hf : ∀ a, Takes (f a) fun b => whole b - count a) :
    Takes (x >>= f) whole := by
  intro s t b h
  rw [run_bind] at h
  rcases hr : run x s with ⟨fault | a, u⟩ <;> rw [hr] at h
  · cases h
  · have hu := hx s u a hr
    have ht : t.remaining + (whole b - count a) ≤ u.remaining := hf a u t b h
    omega

end Stream

open PartialTx.Stream (Takes Forward)

theorem CompactSize.takes_read : Takes read fun size => size.elim 0 fun _ => 1 := by
  refine Takes.bind (.read 1) fun got => ?_
  rcases got with _ | ⟨marker, got⟩
  · exact .pure rfl
  -- the marker accounts for the byte, and what is read behind it need not take any
  · have hcount (size : Option Nat) : (size.elim 0 fun _ => 1) - (marker :: got).length = 0 := by
      cases size <;> simp
    dsimp only
    refine Forward.takes ?_ hcount
    rcases payload? marker with _ | ⟨width, least⟩
    · exact .pure _
    · refine Forward.bind (.readExactly width) fun word => ?_
      split
      · exact .throw _
      · exact .pure _

namespace Field

theorem takes_readSized (limit : Value) (missing : Fault) (tooLong : Nat → Value → Fault) :
    Takes (readSized limit missing tooLong) fun _ => 1 := by
  refine Takes.bind CompactSize.takes_read fun size => ?_
  rcases size with _ | size
  · exact .throw missing _
  · refine Forward.takes (.bind (.lift _) fun exceeded => ?_) fun _ => rfl
    split
    · exact .throw _
    · exact .readExactly size

theorem takes_readKey (limit : Value) :
    Takes (readKey limit) fun head => head.elim 0 fun _ => 2 := by
  refine Takes.bind (.read 1) fun got => ?_
  rcases got with _ | ⟨code, got⟩
  · exact .throw _ _
  · dsimp only
    split
    · exact .pure (Nat.zero_sub _)
    · refine Takes.bind (takes_readSized limit _ _) fun key => .pure ?_
      simp

/-- A field takes its code and two sizes at least. -/
theorem takes_read (limits : Limits) : Takes (read limits) fun next => next.elim 0 fun _ => 3 := by
  refine Takes.bind (takes_readKey limits.key) fun head => ?_
  rcases head with _ | ⟨code, key⟩
  · exact .pure rfl
  · exact Takes.bind (takes_readSized limits.value _ _) fun value => .pure rfl

end Field

/-! ### Rounds -/

namespace FieldMap

variable {σ : Type} {store : σ → Field → Except Fault σ}

/-- What is asked for in each round of the loop, up to the last one. -/
def rounds (store : σ → Field → Except Fault σ) (limits : Limits) (p : Progress σ) :
    List (List Int) :=
  (Field.plan limits).requests p.stream ::
    match _h : Stream.run (Field.read limits) p.stream with
    | (.ok (some f), stream) =>
      match store p.state f with
      | .ok state => rounds store limits { state, stream, fields := f :: p.fields }
      | .error _ => []
    | _ => []
termination_by p.stream.remaining
decreasing_by exact Field.remaining_lt_of_read _h

section
variable {limits : Limits} {p q : Progress σ} {outcome : Except Fault Unit}

theorem rounds_eq (store : σ → Field → Except Fault σ) (limits : Limits) (p : Progress σ) :
    rounds store limits p = (Field.plan limits).requests p.stream ::
      match Stream.run (Field.read limits) p.stream with
      | (.ok (some f), stream) =>
        match store p.state f with
        | .ok state => rounds store limits { state, stream, fields := f :: p.fields }
        | .error _ => []
      | _ => [] := by
  rw [rounds]
  split <;> rename_i h <;> simp only [h]

theorem rounds_of_stops (h : Stops store limits p outcome q) :
    rounds store limits p = [(Field.plan limits).requests p.stream] := by
  rw [rounds_eq]
  cases h with
  | separator hread | unread hread => simp only [hread]
  | refused hread hstore => simp only [hread, hstore]

theorem rounds_of_read {f : Field} {t : Stream} {state : σ}
    (hread : Stream.run (Field.read limits) p.stream = (.ok (some f), t))
    (hstore : store p.state f = .ok state) :
    rounds store limits p = (Field.plan limits).requests p.stream ::
      rounds store limits { state, stream := t, fields := f :: p.fields } := by
  rw [rounds_eq]
  simp only [hread, hstore]

end

/-- Every round but the last takes three bytes off the stream. -/
theorem length_rounds_le (store : σ → Field → Except Fault σ) (limits : Limits) (p : Progress σ) :
    (rounds store limits p).length ≤ p.stream.remaining / 3 + 1 := by
  induction p using loop_induction store limits with
  | stops p q outcome hstops =>
    rw [rounds_of_stops hstops, List.length_singleton]
    exact Nat.le_add_left ..
  | next p f t state hread hstore ih =>
    have htaken : t.remaining + 3 ≤ p.stream.remaining := Field.takes_read limits _ _ _ hread
    dsimp only at ih
    rw [rounds_of_read hread hstore, List.length_cons]
    omega

/-- Every round asks for few sizes, and for none above the limits. -/
theorem within_rounds (store : σ → Field → Except Fault σ) (K V : Int) (p : Progress σ) :
    ∀ round ∈ rounds store (.upTo K V) p, round.length ≤ 7 ∧
      ∀ size ∈ round, 0 ≤ size ∧ size ≤ max 8 (max K V) := by
  have hround (s : Stream) := (Field.within_plan K V).requests s
  induction p using loop_induction store (.upTo K V) with
  | stops p q outcome hstops =>
    rw [rounds_of_stops hstops]
    exact List.forall_mem_singleton.2 (hround p.stream)
  | next p f t state hread hstore ih =>
    rw [rounds_of_read hread hstore]
    exact List.forall_mem_cons.2 ⟨hround p.stream, ih⟩

section
variable {limits : Limits} {p q : Progress σ} {outcome : Except Fault Unit}

/-- The last round makes the calls that its plan tells, and what is stored then makes none. -/
theorem Stops.asked (h : Stops store limits p outcome q) :
    Asked outcome p.stream q.stream ((Field.plan limits).requests p.stream) := by
  have hasked := (Field.plan limits).asked_requests p.stream
  rw [Field.action_plan] at hasked
  cases h with
  | separator hread =>
    rw [hread] at hasked
    exact .inl hasked.answered
  | unread hread =>
    rw [hread] at hasked
    exact hasked.error
  | refused hread hstore =>
    rw [hread] at hasked
    exact .inl hasked.answered

end

/-- The requests of the rounds are those that were made of the stream, in their order. -/
theorem asked_rounds (store : σ → Field → Except Fault σ) (limits : Limits) (p : Progress σ) :
    Asked (populate store limits p).1 p.stream (populate store limits p).2.stream
      (rounds store limits p).flatten := by
  induction p using loop_induction store limits with
  | stops p q outcome hstops =>
    rw [rounds_of_stops hstops, List.flatten_singleton, hstops.populate_eq]
    exact hstops.asked
  | next p f t state hread hstore ih =>
    have hasked := (Field.plan limits).asked_requests p.stream
    rw [Field.action_plan, hread] at hasked
    rw [rounds_of_read hread hstore, List.flatten_cons, populate_of_read hread hstore]
    exact hasked.answered.asked_append ih

/-- A round reads one field; only the last may read none. -/
theorem length_fields (store : σ → Field → Except Fault σ) (limits : Limits) (p : Progress σ) :
    (populate store limits p).2.fields.length ≤ p.fields.length + (rounds store limits p).length ∧
      p.fields.length + (rounds store limits p).length ≤
        (populate store limits p).2.fields.length + 1 := by
  induction p using loop_induction store limits with
  | stops p q outcome hstops =>
    rw [rounds_of_stops hstops, hstops.populate_eq, List.length_singleton]
    cases hstops with
    | separator _ | unread _ => exact ⟨Nat.le_add_right .., Nat.le_refl _⟩
    | refused _ _ => exact ⟨Nat.le_refl _, Nat.le_add_right ..⟩
  | next p f t state hread hstore ih =>
    rw [rounds_of_read hread hstore, populate_of_read hread hstore, List.length_cons]
    simp only [List.length_cons] at ih
    omega

end FieldMap

end PartialTx
