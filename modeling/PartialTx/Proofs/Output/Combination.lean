import PartialTx.Proofs.Output.Equality
import PartialTx.Proofs.Output.InPlace

/-! Combination of records. It is associative and idempotent, with the empty record for a
unit, down to the order of the origins, also where a record is combined with itself in
memory. Which of two records comes first makes no difference exactly where they agree,
unless a script stands in one of them only that differs from itself, as a NaN does. -/

namespace PartialTx

/-- A single field that is set in both records is set to equal values. -/
def SameIfSet {α : Type} [BEq α] (x y : Option α) : Prop :=
  ∀ u v, x = some u → y = some v → (v == u) = true

/-- A value of a single field that is set in one record and not in the other. -/
def Alone {α : Type} (x y : Option α) (v : α) : Prop :=
  x = some v ∧ y = none ∨ x = none ∧ y = some v

section
variable {α : Type} [BEq α] {x y : Option α}

theorem sameIfSet_none_left (y : Option α) : SameIfSet none y := nofun

theorem sameIfSet_none_right (x : Option α) : SameIfSet x none := nofun

theorem beq_orElse_iff : ((y <|> x) == (x <|> y)) = true ↔
    SameIfSet x y ∧ ∀ v, Alone x y v → (v == v) = true := by
  rcases x with _ | u <;> rcases y with _ | v <;> simp [SameIfSet, Alone]

theorem orElse_eq_orElse_iff [LawfulBEq α] : (y <|> x) = (x <|> y) ↔ SameIfSet x y := by
  rw [← beq_iff_eq (a := (y <|> x)), beq_orElse_iff]
  exact and_iff_left fun v _ => beq_self_eq_true v

end

namespace Output

section
variable {σ : Type} {a b c : Output σ}

/-! ### Laws -/

theorem combine_assoc (hb : b.WellFormed) (hc : c.WellFormed) :
    (a.combine b).combine c = a.combine (b.combine c) := by
  have hassoc {α : Type} (x y z : Option α) : (z <|> (y <|> x)) = ((z <|> y) <|> x) := by
    cases z <;> rfl
  simp only [combine, Keyed.override_assoc hb.keyOrigins_distinct hc.keyOrigins_distinct,
    Keyed.override_assoc hb.tapOrigins_distinct hc.tapOrigins_distinct, hassoc]

theorem combine_self (ha : a.WellFormed) : a.combine a = a := by
  have hself {α : Type} (x : Option α) : (x <|> x) = x := by cases x <;> rfl
  simp only [combine, Keyed.override_self ha.keyOrigins_distinct,
    Keyed.override_self ha.tapOrigins_distinct, hself]

theorem combine_combine_self (hb : b.WellFormed) : (a.combine b).combine b = a.combine b := by
  rw [combine_assoc hb hb, combine_self hb]

theorem combine_empty (a : Output σ) : a.combine {} = a := by
  simp [combine, Keyed.override]

theorem empty_combine (ha : a.WellFormed) : ({} : Output σ).combine a = a := by
  simp [combine, Keyed.nil_override ha.keyOrigins_distinct,
    Keyed.nil_override ha.tapOrigins_distinct]

/-! ### Agreement -/

variable [BEq σ]

/-- No single field is set to different values in both records, and a key that has an origin in
both has equal ones. -/
structure Agrees (a b : Output σ) : Prop where
  redeemScript : SameIfSet a.redeemScript b.redeemScript
  witnessScript : SameIfSet a.witnessScript b.witnessScript
  tapInternalKey : SameIfSet a.tapInternalKey b.tapInternalKey
  tapTree : SameIfSet a.tapTree b.tapTree
  keyOrigins : ∀ o ∈ a.keyOrigins, ∀ o' ∈ b.keyOrigins, o.key = o'.key → (o == o') = true
  tapOrigins : ∀ o ∈ a.tapOrigins, ∀ o' ∈ b.tapOrigins, o.key = o'.key → (o == o') = true

omit [BEq σ] in
/-- A script or a tree that one of the records has and the other lacks. -/
def OnlyInOne (a b : Output σ) (v : σ) : Prop :=
  Alone a.redeemScript b.redeemScript v ∨ Alone a.witnessScript b.witnessScript v ∨
    Alone a.tapTree b.tapTree v

/-- Which record comes first makes no difference exactly where they agree and what only one of
them has is equal to itself. -/
theorem beq_combine_iff (ha : a.WellFormed) (hb : b.WellFormed) :
    (a.combine b == b.combine a) = true ↔
      a.Agrees b ∧ ∀ v, a.OnlyInOne b v → (v == v) = true := by
  rw [beq_iff_perm (ha.combine hb) (hb.combine ha)]
  simp only [combine, beq_orElse_iff, orElse_eq_orElse_iff,
    Keyed.perm_map_override_iff KeyOrigin.key_eq_of_parts ha.keyOrigins_distinct
      hb.keyOrigins_distinct,
    Keyed.perm_map_override_iff TapOrigin.key_eq_of_parts ha.tapOrigins_distinct
      hb.tapOrigins_distinct, ← KeyOrigin.beq_iff, ← TapOrigin.beq_iff, OnlyInOne]
  constructor
  · rintro ⟨⟨⟨hr, hr'⟩, ⟨hw, hw'⟩, hi, ht, ht'⟩, hk, hto⟩
    exact ⟨⟨hr, hw, hi, ht, hk, hto⟩, fun v hv => hv.elim (hr' v) fun hv => hv.elim (hw' v) (ht' v)⟩
  · rintro ⟨⟨hr, hw, hi, ht, hk, hto⟩, hv⟩
    exact ⟨⟨⟨hr, fun v h => hv v (.inl h)⟩, ⟨hw, fun v h => hv v (.inr (.inl h))⟩, hi, ht,
      fun v h => hv v (.inr (.inr h))⟩, hk, hto⟩

end

/-! ### Records that runs come to -/

/-- A record with a NaN for a script. -/
def nanScript : Output Value := { redeemScript := some (.float .nan) }

theorem wellFormed_nanScript : nanScript.WellFormed :=
  ⟨Keyed.distinct_nil, Keyed.distinct_nil, nofun⟩

/-- Such a record can be built, and agrees with the empty one; but combined with it, in either
order, it does not come to equal records. -/
theorem not_beq_combine_nanScript :
    ofArguments [("redeem_script", .float .nan)] = .ok nanScript ∧
      Reachable Script.given nanScript ∧ Reachable Script.given ({} : Output Value) ∧
      nanScript.Agrees {} ∧
      ¬ (nanScript.combine {} == ({} : Output Value).combine nanScript) = true := by
  refine ⟨rfl, (reachable_iff _).2 wellFormed_nanScript, (reachable_iff _).2 wellFormed_empty, ?_,
    fun h => ?_⟩
  · exact ⟨sameIfSet_none_right _, sameIfSet_none_right _, sameIfSet_none_right _,
      sameIfSet_none_right _, List.forall_mem_nil _, List.forall_mem_nil _⟩
  · obtain ⟨-, hself⟩ := (beq_combine_iff wellFormed_nanScript wellFormed_empty).1 h
    exact absurd (hself _ (.inl (.inl ⟨rfl, rfl⟩))) (by decide)

/-- On records that runs come to, whatever stands as a script in them, combination is associative
and idempotent, in memory too, with the empty record for a unit. Which record comes first makes no
difference exactly where the two agree and each script or tree that only one of them has is equal
to itself. Where everything is, as byte strings are, it makes none exactly where the two agree. -/
theorem combine_of_reachable {σ : Type} [Script σ] {scriptOf : Value → Except Fault (Option σ)}
    {a b c : Output σ} (ha : Reachable scriptOf a) (hb : Reachable scriptOf b)
    (hc : Reachable scriptOf c) :
    ((a.combine b).combine c = a.combine (b.combine c) ∧ a.combine a = a ∧
      (∀ (m : Memory σ) (i : Nat), m.Valid → m.value i = a →
        ∃ m', (∀ m'', Memory.Combines i i m m'' ↔ m'' = m') ∧ m'.value i = a) ∧
      (a.combine b).combine b = a.combine b ∧ a.combine {} = a ∧
      ({} : Output σ).combine a = a) ∧
    ((a.combine b == b.combine a) = true ↔
      a.Agrees b ∧ ∀ v, a.OnlyInOne b v → (v == v) = true) ∧
    ((∀ v : σ, (v == v) = true) → ((a.combine b == b.combine a) = true ↔ a.Agrees b)) := by
  rw [reachable_iff] at ha hb hc
  refine ⟨⟨combine_assoc hb hc, combine_self ha, fun m i hm hi => ?_, combine_combine_self hb,
    combine_empty a, empty_combine ha⟩, beq_combine_iff ha hb, fun hself => ?_⟩
  · obtain ⟨m', hiff, -, hvalue, -⟩ := Memory.combines_iff hm i i
    exact ⟨m', hiff, by rw [hvalue, hi, combine_self ha]⟩
  · rw [beq_combine_iff ha hb]
    exact and_iff_left fun v _ => hself v

/-- The same origins in two orders: combined one way and the other the records are equal, but
not the same. -/
theorem combine_of_descending :
    let a := ascending.map Value.bytes
    let b := descending.map Value.bytes
    (a.combine b).combine {} = a.combine (b.combine {}) ∧
      (∃ m', Memory.Combines 0 0 (.holding a) m' ∧ m'.value 0 = a) ∧
      (a.combine b == b.combine a) = true ∧
      (a.combine b).keyOrigins ≠ (b.combine a).keyOrigins := by
  intro a b
  obtain ⟨⟨hassoc, -, hmemory, -⟩, hiff, -⟩ := combine_of_reachable (a := a) (b := b)
    reachable_ascending reachable_descending ((reachable_iff _).2 wellFormed_empty)
  obtain ⟨m', hm', hvalue⟩ := hmemory (.holding a) 0 (Memory.valid_holding a)
    (Memory.value_holding a 0)
  have hkeys : ∀ o ∈ a.keyOrigins, ∀ o' ∈ b.keyOrigins, o.key = o'.key → (o == o') = true := by
    intro o ho o' ho' hk
    have hdistinct := reachable_ascending.wellFormed.keyOrigins_distinct
    rw [List.inj_on_of_nodup_map hdistinct ho (perm_descending.mem_iff.2 ho') hk]
    exact KeyOrigin.beq_iff.2 rfl
  have hwitness : SameIfSet a.witnessScript b.witnessScript := by
    rintro u v ⟨⟩ ⟨⟩
    rfl
  have hnone (v : Value) : ¬ a.OnlyInOne b v := by
    simp [a, b, OnlyInOne, Alone, map, ascending, descending]
  refine ⟨hassoc, ⟨m', (hm' m').2 rfl, hvalue⟩, hiff.2 ⟨?_, fun v hv => absurd hv (hnone v)⟩, ?_⟩
  · exact ⟨sameIfSet_none_left _, hwitness, sameIfSet_none_left _, sameIfSet_none_left _, hkeys,
      List.forall_mem_nil _⟩
  · exact fun h => absurd (congrArg (List.map KeyOrigin.key) h) (by decide)

end Output

end PartialTx
