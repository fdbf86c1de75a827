import PartialTx.Origin.Tap

/-! Lists of entries told apart by their keys. Adding and overriding keep the keys
distinct, and a list with distinct keys has one ascending order, which both ways of
sorting come to. -/

namespace PartialTx.Keyed

variable {α : Type} [Keyed α] {a b e : α} {entries : List α}

/-! ### Distinct keys -/

theorem distinct_nil : Distinct ([] : List α) := List.nodup_nil

theorem Distinct.perm {others : List α} (h : Distinct entries) (hp : entries.Perm others) :
    Distinct others :=
  (hp.map key).nodup h

theorem distinct_append_singleton :
    Distinct (entries ++ [e]) ↔ Distinct entries ∧ ∀ x ∈ entries, key x ≠ key e := by
  simp [Distinct, List.nodup_append]

theorem Distinct.of_append {others : List α} (h : Distinct (entries ++ others)) :
    Distinct entries := by
  rw [Distinct, List.map_append] at h
  exact (List.nodup_append.1 h).1

theorem isSome_find?_iff {k : Bytes} :
    (find? k entries).isSome ↔ ¬ ∀ x ∈ entries, key x ≠ k := by
  simp [find?]

theorem add?_eq_none_iff : add? entries e = none ↔ ¬ ∀ x ∈ entries, key x ≠ key e := by
  unfold add?
  rw [← isSome_find?_iff]
  split <;> simp [*]

/-- An entry is added exactly where its key is new, and then stands at the end. -/
theorem add?_eq_some_iff {added : List α} :
    add? entries e = some added ↔ (∀ x ∈ entries, key x ≠ key e) ∧ added = entries ++ [e] := by
  unfold add?
  by_cases hnew : ∀ x ∈ entries, key x ≠ key e
  · rw [if_neg fun h => isSome_find?_iff.1 h hnew, Option.some_inj, eq_comm]
    exact ⟨fun h => ⟨hnew, h⟩, fun h => h.2⟩
  · rw [if_pos (isSome_find?_iff.2 hnew)]
    exact ⟨nofun, fun h => absurd h.1 hnew⟩

theorem Distinct.replace (h : Distinct entries) (e : α) : Distinct (replace entries e) := by
  refine distinct_append_singleton.2 ⟨?_, fun x hx => ?_⟩
  · exact h.sublist (List.filter_sublist.map key)
  · simpa using (List.mem_filter.1 hx).2

theorem Distinct.override {mine : List α} (h : Distinct mine) (theirs : List α) :
    Distinct (override mine theirs) := by
  unfold Keyed.override
  induction theirs generalizing mine with
  | nil => exact h
  | cons e theirs ih => exact ih (h.replace e)

/-! ### Order -/

/-- Keys that go up from each entry to the next. -/
def Ascending (entries : List α) : Prop := entries.Pairwise fun a b => key a < key b

theorem not_before_trans {c : α} (hab : (!before b a) = true) (hbc : (!before c b) = true) :
    (!before c a) = true := by
  simp only [before, Bool.not_eq_true', decide_eq_false_iff_not] at *
  exact List.le_trans hab hbc

theorem not_before_total : ((!before b a) || (!before a b)) = true := by
  simp only [before, Bool.or_eq_true, Bool.not_eq_true', decide_eq_false_iff_not]
  exact List.le_total (key a) (key b)

theorem perm_sort (entries : List α) : (sort entries).Perm entries := List.mergeSort_perm _ _

theorem pairwise_sort (entries : List α) :
    (sort entries).Pairwise fun a b => (!before b a) = true :=
  List.pairwise_mergeSort (fun _ _ _ => not_before_trans) (fun _ _ => not_before_total) entries

/-- With distinct keys the sorted entries go up strictly. -/
theorem ascending_sort (h : Distinct entries) : Ascending (sort entries) := by
  have hne : (sort entries).Pairwise fun a b => key a ≠ key b :=
    List.pairwise_map.1 (h.perm (perm_sort entries).symm)
  refine ((pairwise_sort entries).and hne).imp fun ⟨hle, hne⟩ => ?_
  simp only [before, Bool.not_eq_true', decide_eq_false_iff_not] at hle
  exact Std.lt_of_le_of_ne hle hne

theorem sort_eq_self (h : Ascending entries) : sort entries = entries := by
  refine List.mergeSort_of_pairwise (h.imp fun hlt => ?_)
  simp only [before, Bool.not_eq_true', decide_eq_false_iff_not]
  exact List.lt_asymm hlt

/-- Sorting by the three-way comparison is sorting by the keys. -/
theorem sortWith_compare (entries : List α) : sortWith compare entries = sort entries := by
  unfold sortWith sort
  congr 1
  funext a b
  unfold compare
  by_cases hab : key a < key b
  · simp [before, hab, List.lt_asymm hab]
  · by_cases hba : key b < key a <;> simp [before, hab, hba]

end PartialTx.Keyed

namespace PartialTx.TapOrigin

theorem sort_eq (origins : List TapOrigin) : sort origins = Keyed.sort origins :=
  Keyed.sortWith_compare origins

end PartialTx.TapOrigin
