import Mathlib.Logic.Function.Basic
import PartialTx.Output.Basic

/-! Combination as it goes on in memory, where records refer to their lists by address and
may be one and the same. For each entry in the list of the other record a new list is made
for the record, without the entries of that key, and takes the entry at its end. No list
that was in use before is written to, so the list that is gone through stays as it was, and
the records come to hold what combining their values gives. -/

namespace PartialTx

/-! ### Lists in memory -/

/-- Lists by their addresses; those from `free` on are not in use. -/
structure Lists (α : Type) where
  list : Nat → List α
  free : Nat

namespace Lists

variable {α : Type} {m m' m'' : Lists α} {a mine mine' mine'' theirs n : Nat} {e : α}

/-- Puts a list at an address that is not in use. -/
def new (m : Lists α) (es : List α) : Lists α where
  list := Function.update m.list m.free es
  free := m.free + 1

/-- Puts an entry at the end of the list at an address. -/
def append (m : Lists α) (a : Nat) (e : α) : Lists α :=
  { m with list := Function.update m.list a (m.list a ++ [e]) }

variable [Keyed α]

/-- One round for an entry; the list of the record is then the new one. -/
def round (m : Lists α) (mine : Nat) (e : α) : Lists α :=
  (m.new ((m.list mine).filter (Keyed.key · != Keyed.key e))).append m.free e

/-- The rounds for the entries at an address, from a position on, with the list at the address
looked at again in each round. They lead from lists and the address of the record's list to
what these are in the end. -/
inductive Rounds (theirs : Nat) : Nat → Lists α → Nat → Lists α → Nat → Prop
  | done {n : Nat} {m : Lists α} {mine : Nat} (h : (m.list theirs)[n]? = none) :
    Rounds theirs n m mine m mine
  | next {n : Nat} {m m' : Lists α} {mine mine' : Nat} {e : α}
      (h : (m.list theirs)[n]? = some e)
      (rest : Rounds theirs (n + 1) (m.round mine e) m.free m' mine') :
    Rounds theirs n m mine m' mine'

theorem list_round_of_lt (h : a < m.free) : (m.round mine e).list a = m.list a := by
  have ha : a ≠ m.free := Nat.ne_of_lt h
  simp [round, new, append, ha]

theorem list_round_free : (m.round mine e).list m.free = Keyed.replace (m.list mine) e := by
  simp [round, new, append, Keyed.replace]

theorem Rounds.unique (h : Rounds theirs n m mine m' mine')
    (h' : Rounds theirs n m mine m'' mine'') : m' = m'' ∧ mine' = mine'' := by
  induction h with
  | done h =>
    cases h' with
    | done => exact ⟨rfl, rfl⟩
    | next h' => cases h.symm.trans h'
  | next h _ ih =>
    cases h' with
    | done h' => cases h.symm.trans h'
    | next h' rest' =>
      cases h.symm.trans h'
      exact ih rest'

/-- Lists that were in use are kept, and the record's list is where it can be. -/
structure Keeps (m m' : Lists α) (mine' : Nat) : Prop where
  list_eq : ∀ a < m.free, m'.list a = m.list a
  free_le : m.free ≤ m'.free
  mine_lt : mine' < m'.free

/-- The rounds come to an end. The record's list is then overridden by the other, as both were
in the beginning. -/
theorem exists_rounds (ht : theirs < m.free) (hm : mine < m.free) (n : Nat) :
    ∃ m' mine', Rounds theirs n m mine m' mine' ∧
      m'.list mine' = Keyed.override (m.list mine) ((m.list theirs).drop n) ∧
      Keeps m m' mine' := by
  -- a round leaves the list that is gone through with one entry less to come
  induction hes : (m.list theirs).drop n generalizing m mine n with
  | nil =>
    have hnone : (m.list theirs)[n]? = none := List.getElem?_eq_none (List.drop_eq_nil_iff.1 hes)
    exact ⟨m, mine, .done hnone, rfl, fun _ _ => rfl, Nat.le_refl _, hm⟩
  | cons e es ih =>
    have hsome : (m.list theirs)[n]? = some e := by
      rw [← List.head?_drop, hes]
      rfl
    have hrest : ((m.round mine e).list theirs).drop (n + 1) = es := by
      rw [list_round_of_lt ht, ← List.drop_drop, hes]
      rfl
    obtain ⟨m', mine', hrounds, hlist, hkeeps⟩ :=
      ih (Nat.lt_succ_of_lt ht) (Nat.lt_succ_self m.free) (n + 1) hrest
    refine ⟨m', mine', .next hsome hrounds, ?_, fun a ha => ?_, ?_, hkeeps.mine_lt⟩
    · rw [hlist, list_round_free]
      rfl
    · rw [hkeeps.list_eq a (Nat.lt_succ_of_lt ha), list_round_of_lt ha]
    · exact Nat.le_trans (Nat.le_succ _) hkeeps.free_le

end Lists

/-! ### Records in memory -/

/-- A record as it stands in memory, with the addresses of its lists. -/
structure Held (σ : Type) where
  redeemScript : Option σ
  witnessScript : Option σ
  keyOrigins : Nat
  tapInternalKey : Option Bytes
  tapTree : Option σ
  tapOrigins : Nat

/-- A record with the single fields that are set in another. -/
def Held.withSingles {σ : Type} (r other : Held σ) : Held σ :=
  { r with
    redeemScript := other.redeemScript <|> r.redeemScript
    witnessScript := other.witnessScript <|> r.witnessScript
    tapInternalKey := other.tapInternalKey <|> r.tapInternalKey
    tapTree := other.tapTree <|> r.tapTree }

/-- Records by number, and the lists they refer to. -/
structure Memory (σ : Type) where
  record : Nat → Held σ
  keyLists : Lists KeyOrigin
  tapLists : Lists TapOrigin

namespace Memory

variable {σ : Type} {m m' m'' : Memory σ} {i j : Nat}

/-- What a record is, its lists included. -/
def value (m : Memory σ) (i : Nat) : Output σ where
  redeemScript := (m.record i).redeemScript
  witnessScript := (m.record i).witnessScript
  keyOrigins := m.keyLists.list (m.record i).keyOrigins
  tapInternalKey := (m.record i).tapInternalKey
  tapTree := (m.record i).tapTree
  tapOrigins := m.tapLists.list (m.record i).tapOrigins

/-- All records refer to lists in use. -/
def Valid (m : Memory σ) : Prop :=
  ∀ i, (m.record i).keyOrigins < m.keyLists.free ∧ (m.record i).tapOrigins < m.tapLists.free

/-- Changes one record by what another is at that time. -/
def assign (i j : Nat) (m : Memory σ) (change : Held σ → Held σ → Held σ) : Memory σ :=
  { m with record := Function.update m.record i (change (m.record i) (m.record j)) }

/-- Sets the single fields of a record that are set in another, one after another. -/
def setSingles (m : Memory σ) (i j : Nat) : Memory σ :=
  [fun r other => { r with redeemScript := other.redeemScript <|> r.redeemScript },
    fun r other => { r with witnessScript := other.witnessScript <|> r.witnessScript },
    fun r other => { r with tapInternalKey := other.tapInternalKey <|> r.tapInternalKey },
    fun r other => { r with tapTree := other.tapTree <|> r.tapTree }].foldl (assign i j) m

/-- Combining a record with another leads from one memory to another: the single fields are set,
and then there are rounds for both lists. -/
def Combines (i j : Nat) (m m' : Memory σ) : Prop :=
  ∃ keyLists keyOrigins tapLists tapOrigins,
    Lists.Rounds ((m.setSingles i j).record j).keyOrigins 0 m.keyLists
      ((m.setSingles i j).record i).keyOrigins keyLists keyOrigins ∧
    Lists.Rounds ((m.setSingles i j).record j).tapOrigins 0 m.tapLists
      ((m.setSingles i j).record i).tapOrigins tapLists tapOrigins ∧
    m' = { record := Function.update (m.setSingles i j).record i
             { (m.setSingles i j).record i with keyOrigins, tapOrigins }, keyLists, tapLists }

theorem record_setSingles (m : Memory σ) (i j : Nat) :
    (m.setSingles i j).record =
      Function.update m.record i ((m.record i).withSingles (m.record j)) := by
  have hself {α : Type} (x : Option α) : (x <|> x) = x := by cases x <;> rfl
  by_cases hij : j = i
  · simp [setSingles, assign, hij, Held.withSingles, hself]
  · simp [setSingles, assign, hij, Held.withSingles]

theorem Combines.unique (h : Combines i j m m') (h' : Combines i j m m'') : m' = m'' := by
  obtain ⟨keyLists, keyOrigins, tapLists, tapOrigins, hkeys, htaps, rfl⟩ := h
  obtain ⟨_, _, _, _, hkeys', htaps', rfl⟩ := h'
  obtain ⟨rfl, rfl⟩ := hkeys.unique hkeys'
  obtain ⟨rfl, rfl⟩ := htaps.unique htaps'
  rfl

/-- Combining in memory comes to an end. The record is then the combination of the two, also
where the two are one, and the other records are what they were. -/
theorem exists_combines (hm : m.Valid) (i j : Nat) :
    ∃ m', Combines i j m m' ∧ m'.Valid ∧ m'.value i = (m.value i).combine (m.value j) ∧
      ∀ k ≠ i, m'.value k = m.value k := by
  have hlists (k : Nat) : ((m.setSingles i j).record k).keyOrigins = (m.record k).keyOrigins ∧
      ((m.setSingles i j).record k).tapOrigins = (m.record k).tapOrigins := by
    rw [record_setSingles]
    by_cases hk : k = i
    · rw [hk, Function.update_self]
      exact ⟨rfl, rfl⟩
    · rw [Function.update_of_ne hk]
      exact ⟨rfl, rfl⟩
  obtain ⟨keyLists, keyOrigins, hkeys, hkeyList, hkeysKept⟩ :=
    Lists.exists_rounds (hm j).1 (hm i).1 0
  obtain ⟨tapLists, tapOrigins, htaps, htapList, htapsKept⟩ :=
    Lists.exists_rounds (hm j).2 (hm i).2 0
  refine ⟨_, ⟨keyLists, keyOrigins, tapLists, tapOrigins, ?_, ?_, rfl⟩, fun k => ?_, ?_,
    fun k hk => ?_⟩
  · rw [(hlists i).1, (hlists j).1]
    exact hkeys
  · rw [(hlists i).2, (hlists j).2]
    exact htaps
  · by_cases hk : k = i
    · simp only [hk, Function.update_self]
      exact ⟨hkeysKept.mine_lt, htapsKept.mine_lt⟩
    · simp only [Function.update_of_ne hk, hlists k]
      exact ⟨Nat.lt_of_lt_of_le (hm k).1 hkeysKept.free_le,
        Nat.lt_of_lt_of_le (hm k).2 htapsKept.free_le⟩
  · simp only [value, Function.update_self, record_setSingles, hkeyList, htapList, List.drop_zero]
    rfl
  · simp only [value, Function.update_of_ne hk, record_setSingles,
      hkeysKept.list_eq _ (hm k).1, htapsKept.list_eq _ (hm k).2]

theorem combines_iff (hm : m.Valid) (i j : Nat) :
    ∃ m', (∀ m'', Combines i j m m'' ↔ m'' = m') ∧ m'.Valid ∧
      m'.value i = (m.value i).combine (m.value j) ∧ ∀ k ≠ i, m'.value k = m.value k := by
  obtain ⟨m', hm', hvalid, hvalue, hothers⟩ := exists_combines hm i j
  exact ⟨m', fun m'' => ⟨fun h => h.unique hm', fun h => h ▸ hm'⟩, hvalid, hvalue, hothers⟩

/-- A memory in which every number stands for one record, whose lists are at the first address. -/
def holding (r : Output σ) : Memory σ where
  record := fun _ =>
    { redeemScript := r.redeemScript
      witnessScript := r.witnessScript
      keyOrigins := 0
      tapInternalKey := r.tapInternalKey
      tapTree := r.tapTree
      tapOrigins := 0 }
  keyLists := { list := fun _ => r.keyOrigins, free := 1 }
  tapLists := { list := fun _ => r.tapOrigins, free := 1 }

theorem valid_holding (r : Output σ) : (holding r).Valid := fun _ => ⟨Nat.one_pos, Nat.one_pos⟩

theorem value_holding (r : Output σ) (i : Nat) : (holding r).value i = r := rfl

/-- A memory in which one record comes first and another stands under all other numbers, each
with its own lists. -/
def holdingTwo (first other : Output σ) : Memory σ where
  record
    | 0 => (holding first).record 0
    | _ => { (holding other).record 0 with keyOrigins := 1, tapOrigins := 1 }
  keyLists :=
    { list := fun | 0 => first.keyOrigins | _ => other.keyOrigins
      free := 2 }
  tapLists :=
    { list := fun | 0 => first.tapOrigins | _ => other.tapOrigins
      free := 2 }

theorem valid_holdingTwo (first other : Output σ) : (holdingTwo first other).Valid
  | 0 => ⟨Nat.two_pos, Nat.two_pos⟩
  | _ + 1 => ⟨Nat.one_lt_two, Nat.one_lt_two⟩

end Memory

end PartialTx
