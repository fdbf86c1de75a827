import PartialTx.Proofs.Origin.Keyed
import PartialTx.Proofs.Output.InPlace

/-! The order that sorting leaves. Sorted entries go up by their keys, byte by byte, and those of
one key are in their old order. No other rearrangement of the entries is like that, so any stable
sort comes to the same list, whether it compares keys or asks the comparison of two entries. The
list that is sorted stays as it was. -/

namespace PartialTx

/-! ### Stable sorts -/

namespace Keyed

section
variable {α : Type}

/-- Neither of two entries goes before the other. -/
def tied (goesBefore : α → α → Bool) (a b : α) : Bool := !goesBefore a b && !goesBefore b a

/-- What a stable sort makes of entries when it is told which of two goes before the other. -/
structure Arranged (goesBefore : α → α → Bool) (entries sorted : List α) : Prop where
  perm : sorted.Perm entries
  ordered : sorted.Pairwise fun a b => goesBefore b a = false
  stable : ∀ e, sorted.filter (tied goesBefore e) = entries.filter (tied goesBefore e)

end

variable {α : Type} [Keyed α] {a b : α} {entries sorted others : List α}

/-- The entries by ascending key, in lexicographic order of bytes, with those of a key in their
old order. -/
structure StablyAscending (entries sorted : List α) : Prop where
  perm : sorted.Perm entries
  ascending : sorted.Pairwise fun a b => key a ≤ key b
  ties_kept : ∀ k, sorted.filter (key · == k) = entries.filter (key · == k)

/-! ### Order by keys -/

theorem not_before_iff : before b a = false ↔ key a ≤ key b := decide_eq_false_iff_not

theorem tied_before : tied before a b = (key b == key a) := by
  rw [Bool.eq_iff_iff, tied, Bool.and_eq_true, Bool.not_eq_true', Bool.not_eq_true',
    not_before_iff, not_before_iff, beq_iff_eq]
  constructor
  · exact fun ⟨hba, hab⟩ => List.le_antisymm hba hab
  · intro h
    rw [h]
    exact ⟨List.le_refl _, List.le_refl _⟩

theorem arranged_before_iff :
    Arranged before entries sorted ↔ StablyAscending entries sorted := by
  have htied (e : α) : tied before e = (key · == key e) := funext fun _ => tied_before
  constructor
  · intro h
    refine ⟨h.perm, h.ordered.imp not_before_iff.1, fun k => ?_⟩
    by_cases hk : ∃ e ∈ entries, key e = k
    · obtain ⟨e, -, rfl⟩ := hk
      rw [← htied]
      exact h.stable e
    · -- a key that no entry has leaves nothing on either side
      have hnone : ∀ e ∈ entries, ¬ (key e == k) = true :=
        fun e he heq => hk ⟨e, he, beq_iff_eq.1 heq⟩
      rw [List.filter_eq_nil_iff.2 hnone,
        List.filter_eq_nil_iff.2 fun e he => hnone e (h.perm.mem_iff.1 he)]
  · intro h
    refine ⟨h.perm, h.ascending.imp not_before_iff.2, fun e => ?_⟩
    rw [htied]
    exact h.ties_kept (key e)

/-- Entries of one key are sorted in the order in which they stand. -/
theorem filter_sort (entries : List α) (k : Bytes) :
    (sort entries).filter (key · == k) = entries.filter (key · == k) := by
  have hperm := (perm_sort entries).filter (key · == k)
  have hpairwise : (entries.filter (key · == k)).Pairwise fun a b => (!before b a) = true := by
    refine List.pairwise_of_forall_mem_list fun a ha b hb => ?_
    have hab : key a = key b :=
      (beq_iff_eq.1 (List.mem_filter.1 ha).2).trans (beq_iff_eq.1 (List.mem_filter.1 hb).2).symm
    rw [Bool.not_eq_true', not_before_iff, hab]
    exact List.le_refl _
  have hsublist : (entries.filter (key · == k)).Sublist (sort entries) :=
    List.sublist_mergeSort (fun _ _ _ => not_before_trans) (fun _ _ => not_before_total)
      hpairwise List.filter_sublist
  have hfilter := hsublist.filter (key · == k)
  rw [List.filter_filter, List.filter_congr fun _ _ => Bool.and_self _] at hfilter
  exact (hfilter.eq_of_length hperm.length_eq.symm).symm

theorem stablyAscending_sort (entries : List α) : StablyAscending entries (sort entries) where
  perm := perm_sort entries
  ascending := (pairwise_sort entries).imp fun h => not_before_iff.1 (Bool.not_eq_true' _ ▸ h)
  ties_kept := filter_sort entries

/-- What a list has is in any other one in which each key has the same entries. -/
theorem mem_of_filter_eq (h : ∀ k, sorted.filter (key · == k) = others.filter (key · == k))
    (ha : a ∈ sorted) : a ∈ others := by
  have ha' : a ∈ sorted.filter (key · == key a) := List.mem_filter.2 ⟨ha, beq_self_eq_true _⟩
  rw [h] at ha'
  exact (List.mem_filter.1 ha').1

/-- No key is less than that of the first entry. -/
theorem le_of_mem_cons (hb : ∀ e ∈ others, key b ≤ key e) (ha : a ∈ b :: others) :
    key b ≤ key a := by
  rcases List.mem_cons.1 ha with rfl | ha
  · exact List.le_refl _
  · exact hb a ha

/-- Ascending lists in which each key has the same entries in the same order are equal. -/
theorem eq_of_filter_eq (hs : sorted.Pairwise fun a b => key a ≤ key b)
    (ho : others.Pairwise fun a b => key a ≤ key b)
    (h : ∀ k, sorted.filter (key · == k) = others.filter (key · == k)) : sorted = others := by
  have hsymm (k : Bytes) := (h k).symm
  induction sorted generalizing others with
  | nil =>
    cases others with
    | nil => rfl
    | cons b others => exact absurd (mem_of_filter_eq hsymm List.mem_cons_self) List.not_mem_nil
  | cons a sorted ih =>
    cases others with
    | nil => exact absurd (mem_of_filter_eq h List.mem_cons_self) List.not_mem_nil
    | cons b others =>
      rw [List.pairwise_cons] at hs ho
      obtain ⟨ha, hs⟩ := hs
      obtain ⟨hb, ho⟩ := ho
      -- each of the first entries occurs in the other list, so neither key is the greater
      have hkey : key a = key b :=
        List.le_antisymm (le_of_mem_cons ha (mem_of_filter_eq hsymm List.mem_cons_self))
          (le_of_mem_cons hb (mem_of_filter_eq h List.mem_cons_self))
      have hfirst := h (key a)
      rw [List.filter_cons, List.filter_cons, if_pos (beq_self_eq_true _),
        if_pos (beq_iff_eq.2 hkey.symm)] at hfirst
      obtain ⟨rfl, -⟩ := List.cons.inj hfirst
      have hrest (k : Bytes) : sorted.filter (key · == k) = others.filter (key · == k) := by
        have hk := h k
        rw [List.filter_cons, List.filter_cons] at hk
        split at hk
        · exact (List.cons.inj hk).2
        · exact hk
      rw [ih hs ho hrest fun k => (hrest k).symm]

/-- There is one such order of the entries, the sorted one. -/
theorem stablyAscending_iff : StablyAscending entries sorted ↔ sorted = sort entries := by
  constructor
  · intro h
    exact eq_of_filter_eq h.ascending (stablyAscending_sort entries).ascending fun k =>
      (h.ties_kept k).trans (filter_sort entries k).symm
  · rintro rfl
    exact stablyAscending_sort entries

theorem sort_sort (entries : List α) : sort (sort entries) = sort entries := by
  have hsorted := stablyAscending_sort entries
  exact (stablyAscending_iff.1 ⟨List.Perm.refl _, hsorted.ascending, fun _ => rfl⟩).symm

/-! ### The comparison of two entries -/

/-- Entries compare as their keys do. -/
theorem compare_eq : compare a b = compareOfLessAndEq (key a) (key b) := by
  unfold compare compareOfLessAndEq
  by_cases hab : key a < key b
  · simp [before, hab]
  · by_cases heq : key a = key b
    · simp [before, heq, List.lt_irrefl]
    · have hba : key b < key a := Std.lt_of_le_of_ne (List.not_lt.1 hab) (Ne.symm heq)
      simp [before, hab, hba, heq]

theorem compare_beq_lt : (compare a b == .lt) = before a b := by
  unfold compare
  cases before a b
  · cases before b a <;> rfl
  · rfl

end Keyed

/-! ### Lists that are sorted -/

namespace Lists

variable {α : Type}

/-- Sorting the list at an address: its entries go into a list of their own, and this is the one
that is put in order. -/
def sortNew (m : Lists α) (sort : List α → List α) (a : Nat) : Lists α :=
  let copied := m.new (m.list a)
  { copied with list := Function.update copied.list m.free (sort (copied.list m.free)) }

theorem list_sortNew (m : Lists α) (sort : List α → List α) (a : Nat) :
    (m.sortNew sort a).list = Function.update m.list m.free (sort (m.list a)) := by
  simp only [sortNew, new, Function.update_self, Function.update_idem]

end Lists

namespace Keyed

/-- Sorting in the order of a test, by whatever stable sort: what comes out goes up by key and
keeps ties, sorting it again changes nothing, and all lists that are there before, the one that
is sorted among them, stay as they are. -/
structure SortsStably {α : Type} [Keyed α] (goesBefore : α → α → Bool)
    (sort : List α → List α) : Prop where
  stablyAscending : ∀ entries, StablyAscending entries (sort entries)
  arranged_iff : ∀ entries sorted, Arranged goesBefore entries sorted ↔ sorted = sort entries
  sort_sort : ∀ entries, sort (sort entries) = sort entries
  list_free : ∀ (m : Lists α) a, (m.sortNew sort a).list m.free = sort (m.list a)
  list_of_lt : ∀ (m : Lists α) a, ∀ b < m.free, (m.sortNew sort a).list b = m.list b

theorem sortsStably_sort {α : Type} [Keyed α] :
    SortsStably before (sort : List α → List α) where
  stablyAscending := stablyAscending_sort
  arranged_iff _ _ := arranged_before_iff.trans stablyAscending_iff
  sort_sort := sort_sort
  list_free m a := by rw [m.list_sortNew, Function.update_self]
  list_of_lt m a b hb := by rw [m.list_sortNew, Function.update_of_ne (Nat.ne_of_lt hb)]

end Keyed

/-- Origins are sorted by their keys, and those used in tap leaves by the comparison of two of
them. Both are the stable ascending sort by key. -/
theorem Origin.sorts_stably :
    Keyed.SortsStably Keyed.before (Keyed.sort : List KeyOrigin → List KeyOrigin) ∧
      Keyed.SortsStably (fun a b => Keyed.compare a b == .lt) TapOrigin.sort ∧
      (∀ origins, TapOrigin.sort origins = Keyed.sort origins) ∧
      ∀ a b : TapOrigin, Keyed.compare a b = compareOfLessAndEq a.key b.key := by
  have hsort : TapOrigin.sort = (Keyed.sort : List TapOrigin → List TapOrigin) :=
    funext TapOrigin.sort_eq
  have hcompare : (fun a b : TapOrigin => Keyed.compare a b == .lt) = Keyed.before :=
    funext fun _ => funext fun _ => Keyed.compare_beq_lt
  refine ⟨Keyed.sortsStably_sort, ?_, TapOrigin.sort_eq, fun _ _ => Keyed.compare_eq⟩
  rw [hsort, hcompare]
  exact Keyed.sortsStably_sort

end PartialTx
