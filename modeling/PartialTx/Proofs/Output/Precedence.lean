import PartialTx.Proofs.Output.Combination

/-! What combination leaves in a record. A single field, or the origin of a key, is that of
the other record where this has one, and else the old one; the lists of origins are the old
ones of other keys, in their order, with all of the other record behind them. In memory only
the one record changes. -/

namespace PartialTx

/-- What is found in the end is what was new, if anything was, and else what was old. -/
def Supersedes {α : Type} (new old found : Option α) : Prop :=
  (∀ v, new = some v → found = some v) ∧ (new = none → found = old)

theorem supersedes_orElse {α : Type} (new old : Option α) :
    Supersedes new old (new <|> old) := by
  cases new with
  | none => exact ⟨nofun, fun _ => rfl⟩
  | some v => exact ⟨fun _ h => h, nofun⟩

theorem Keyed.supersedes_override {α : Type} [Keyed α] {old new : List α}
    (h : Keyed.Distinct new) (k : Bytes) :
    Supersedes (Keyed.find? k new) (Keyed.find? k old)
      (Keyed.find? k (Keyed.override old new)) := by
  rw [Keyed.find?_override h]
  exact supersedes_orElse _ _

namespace Output

section
variable {σ : Type} {old new : Output σ}

/-- A record with all that another has, and what it had before where the other has nothing. -/
structure Overridden (old new result : Output σ) : Prop where
  redeemScript : Supersedes new.redeemScript old.redeemScript result.redeemScript
  witnessScript : Supersedes new.witnessScript old.witnessScript result.witnessScript
  tapInternalKey : Supersedes new.tapInternalKey old.tapInternalKey result.tapInternalKey
  tapTree : Supersedes new.tapTree old.tapTree result.tapTree
  keyOrigin (key : Bytes) :
    Supersedes (new.keyOrigin? key) (old.keyOrigin? key) (result.keyOrigin? key)
  tapOrigin (key : Bytes) :
    Supersedes (new.tapOrigin? key) (old.tapOrigin? key) (result.tapOrigin? key)
  keyOrigins : result.keyOrigins =
    old.keyOrigins.filter (fun o => o.key ∉ new.keyOrigins.map KeyOrigin.key) ++ new.keyOrigins
  tapOrigins : result.tapOrigins =
    old.tapOrigins.filter (fun o => o.key ∉ new.tapOrigins.map TapOrigin.key) ++ new.tapOrigins

theorem WellFormed.overridden_combine (h : new.WellFormed) :
    Overridden old new (old.combine new) where
  redeemScript := supersedes_orElse _ _
  witnessScript := supersedes_orElse _ _
  tapInternalKey := supersedes_orElse _ _
  tapTree := supersedes_orElse _ _
  keyOrigin := Keyed.supersedes_override h.keyOrigins_distinct
  tapOrigin := Keyed.supersedes_override h.tapOrigins_distinct
  keyOrigins := Keyed.override_eq_filter h.keyOrigins_distinct
  tapOrigins := Keyed.override_eq_filter h.tapOrigins_distinct

end

end Output

namespace Memory

/-- Combining a record in memory with one that a run comes to, whatever stands as a script in
them, ends in one way only: the record is overridden by the other, and all records besides are
what they were. -/
theorem combines_overridden {σ : Type} [Script σ] {scriptOf : Value → Except Fault (Option σ)}
    {m : Memory σ} (hm : m.Valid) {i j : Nat} (hj : Output.Reachable scriptOf (m.value j)) :
    ∃ m', (∀ m'', Combines i j m m'' ↔ m'' = m') ∧
      Output.Overridden (m.value i) (m.value j) (m'.value i) ∧
      ∀ k ≠ i, m'.value k = m.value k := by
  obtain ⟨m', hiff, -, hvalue, hothers⟩ := combines_iff hm i j
  refine ⟨m', hiff, ?_, hothers⟩
  rw [hvalue]
  exact ((Output.reachable_iff _).1 hj).overridden_combine

end Memory

namespace Output

/-- A later record, with another path for the first key in `ascending`, behind new keys. -/
def revised : Output Bytes where
  redeemScript := some [0x51]
  keyOrigins := unordered.keyOrigins ++
    (ascending.keyOrigins.take 1).map fun o => { o with path := [.index 44] }

theorem reachable_revised : revised.ReachableBytes := by
  refine (reachable_iff _).2 (wellFormed_map_iff.2 ⟨?_, Keyed.distinct_nil, nofun⟩)
  show (revised.keyOrigins.map KeyOrigin.key).Nodup
  decide

end Output

/-- Of the two origins one is kept in front of those of the other record, and so are the script
that is set to no bytes and the tree that is a text. -/
theorem Memory.combines_revised :
    let old : Output Value := { Output.ascending.map .bytes with tapTree := some (.text "tree") }
    let m := Memory.holdingTwo old (Output.revised.map Value.bytes)
    ∃ m', Combines 0 1 m m' ∧ m'.value 1 = m.value 1 ∧
      (m'.value 0).redeemScript = some (.bytes [0x51]) ∧
      (m'.value 0).witnessScript = some (.bytes []) ∧
      (m'.value 0).tapTree = some (.text "tree") ∧
      (m'.value 0).keyOrigins =
        Output.ascending.keyOrigins.drop 1 ++ Output.revised.keyOrigins := by
  intro old m
  obtain ⟨m', hiff, hoverridden, hothers⟩ := combines_overridden (m := m) (i := 0) (j := 1)
    (valid_holdingTwo _ _) Output.reachable_revised
  refine ⟨m', (hiff m').2 rfl, hothers 1 (by decide), hoverridden.redeemScript.1 _ rfl,
    hoverridden.witnessScript.2 rfl, hoverridden.tapTree.2 rfl, hoverridden.keyOrigins.trans ?_⟩
  rfl

end PartialTx
