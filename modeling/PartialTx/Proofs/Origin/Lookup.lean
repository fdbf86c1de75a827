import Mathlib.Data.List.Nodup
import Mathlib.Data.List.Perm.Basic
import PartialTx.Proofs.Origin.Keyed

/-! What is found in lists of entries told apart by their keys. Two lists have the same
entries, in whatever order, exactly if the same is found in them under each key, and then
they have one sorted form. In a list overridden by another, what is found is the entry of
the other list before that of the one; so overriding is associative. -/

namespace PartialTx.Keyed

variable {α β : Type} [Keyed α] {k : Bytes} {e : α} {as bs cs : List α}

theorem find?_eq_none_iff : find? k as = none ↔ ∀ x ∈ as, key x ≠ k := by
  simp [find?]

theorem key_of_find? (h : find? k as = some e) : e ∈ as ∧ key e = k :=
  ⟨List.mem_of_find?_eq_some h, beq_iff_eq.1 (List.find?_some (p := fun x => key x == k) h)⟩

theorem find?_eq_some_iff (h : Distinct as) : find? k as = some e ↔ e ∈ as ∧ key e = k := by
  refine ⟨key_of_find?, fun ⟨he, hk⟩ => ?_⟩
  rcases hf : find? k as with _ | x
  · exact absurd hk (find?_eq_none_iff.1 hf e he)
  · obtain ⟨hx, hxk⟩ := key_of_find? hf
    rw [List.inj_on_of_nodup_map h hx he (hxk.trans hk.symm)]

/-! ### Lists with the same entries -/

theorem map_find?_eq_some_iff {g : α → β} (h : Distinct as) {x : β} :
    (find? k as).map g = some x ↔ ∃ e ∈ as, key e = k ∧ g e = x := by
  simp only [Option.map_eq_some_iff, find?_eq_some_iff h, and_assoc]

section
variable {g : α → β} (hg : ∀ a b, g a = g b → key a = key b)
include hg

theorem nodup_map (h : Distinct as) : (as.map g).Nodup :=
  List.pairwise_map.2 ((List.pairwise_map.1 h).imp fun hne heq => hne (hg _ _ heq))

theorem map_subset_iff (ha : Distinct as) (hb : Distinct bs) :
    as.map g ⊆ bs.map g ↔ ∀ k x, (find? k as).map g = some x → (find? k bs).map g = some x := by
  simp only [map_find?_eq_some_iff ha, map_find?_eq_some_iff hb]
  constructor
  · rintro hsub k x ⟨e, he, rfl, rfl⟩
    obtain ⟨e', he', heq⟩ := List.mem_map.1 (hsub (List.mem_map_of_mem he))
    exact ⟨e', he', hg _ _ heq, heq⟩
  · intro h x hx
    obtain ⟨e, he, rfl⟩ := List.mem_map.1 hx
    obtain ⟨e', he', -, heq⟩ := h _ _ ⟨e, he, rfl, rfl⟩
    exact heq ▸ List.mem_map_of_mem he'

/-- What counts of the entries is the same up to order if the same is found under each key. -/
theorem perm_map_iff (ha : Distinct as) (hb : Distinct bs) :
    (as.map g).Perm (bs.map g) ↔ ∀ k, (find? k as).map g = (find? k bs).map g := by
  have hsub : (as.map g).Perm (bs.map g) ↔ as.map g ⊆ bs.map g ∧ bs.map g ⊆ as.map g := by
    rw [List.perm_ext_iff_of_nodup (nodup_map hg ha) (nodup_map hg hb)]
    exact ⟨fun h => ⟨fun x => (h x).1, fun x => (h x).2⟩, fun h x => ⟨@h.1 x, @h.2 x⟩⟩
  rw [hsub, map_subset_iff hg ha hb, map_subset_iff hg hb ha]
  constructor
  · exact fun ⟨h, h'⟩ k => Option.ext fun x => ⟨h k x, h' k x⟩
  · exact fun h => ⟨fun k x hx => (h k).symm.trans hx, fun k x hx => (h k).trans hx⟩

/-- What counts of the sorted entries is the same exactly if it is so up to order. -/
theorem map_sort_eq_iff (ha : Distinct as) (hb : Distinct bs) :
    (sort as).map g = (sort bs).map g ↔ (as.map g).Perm (bs.map g) := by
  have hsort (cs : List α) : ((sort cs).map g).Perm (cs.map g) := (perm_sort cs).map g
  refine ⟨fun h => (hsort as).symm.trans (h ▸ hsort bs), fun h => ?_⟩
  -- both go up by the keys that the entries have
  have hup {cs : List α} (hc : Distinct cs) : ((sort cs).map g).Pairwise fun x y =>
      ∀ a b, g a = x → g b = y → key a < key b :=
    List.pairwise_map.2 ((ascending_sort hc).imp fun hlt a b ha hb => by
      rwa [hg _ _ ha, hg _ _ hb])
  refine ((hsort as).trans (h.trans (hsort bs).symm)).eq_of_pairwise ?_ (hup ha) (hup hb)
  intro x y hx hy hxy hyx
  obtain ⟨a, -, ha⟩ := List.mem_map.1 hx
  obtain ⟨b, -, hb⟩ := List.mem_map.1 hy
  exact absurd (hyx b a hb ha) (List.lt_asymm (hxy a b ha hb))

end

theorem sort_eq_iff (ha : Distinct as) (hb : Distinct bs) : sort as = sort bs ↔ as.Perm bs := by
  have h := map_sort_eq_iff (g := id) (fun _ _ heq => congrArg key heq) ha hb
  rwa [List.map_id, List.map_id, List.map_id, List.map_id] at h

/-! ### Overriding -/

theorem isNone_find?_cons (k : Bytes) (b : α) (bs : List α) :
    (find? k (b :: bs)).isNone = ((find? k bs).isNone && k != key b) := by
  rw [Bool.eq_iff_iff, Bool.and_eq_true, Option.isNone_iff_eq_none, Option.isNone_iff_eq_none,
    find?_eq_none_iff, find?_eq_none_iff, List.forall_mem_cons, bne_iff_ne, and_comm, ne_comm]

/-- The entries of one list whose keys do not occur in another come first, then the other. -/
theorem override_eq (hb : Distinct bs) :
    override as bs = as.filter (fun e => (find? (key e) bs).isNone) ++ bs := by
  induction bs generalizing as with
  | nil =>
    rw [List.append_nil]
    exact (List.filter_eq_self.2 fun _ _ => rfl).symm
  | cons b bs ih =>
    obtain ⟨hnew, hbs⟩ := List.nodup_cons.1 hb
    have hb' : (find? (key b) bs).isNone := by
      rw [Option.isNone_iff_eq_none, find?_eq_none_iff]
      exact fun x hx heq => hnew (heq ▸ List.mem_map_of_mem hx)
    calc override as (b :: bs)
      _ = (replace as b).filter (fun e => (find? (key e) bs).isNone) ++ bs := ih hbs
      _ = as.filter (fun e => (find? (key e) (b :: bs)).isNone) ++ b :: bs := by
        rw [replace, List.filter_append, List.filter_filter, List.filter_singleton, hb',
          List.filter_congr fun e _ => (isNone_find?_cons (key e) b bs).symm, List.append_assoc]
        rfl

/-- Overriding leaves the entries whose keys do not occur among the others, in front of these. -/
theorem override_eq_filter (hb : Distinct bs) :
    override as bs = as.filter (fun e => key e ∉ bs.map key) ++ bs := by
  rw [override_eq hb]
  congr 1
  refine List.filter_congr fun e _ => ?_
  rw [Bool.eq_iff_iff, Option.isNone_iff_eq_none, find?_eq_none_iff, decide_eq_true_iff]
  simp

theorem find?_filter_isNone (bs : List α) (k : Bytes) :
    find? k (as.filter fun e => (find? (key e) bs).isNone) =
      if (find? k bs).isNone then find? k as else none := by
  rw [find?, List.find?_filter]
  split
  next hnone =>
    rw [find?]
    congr 1
    funext e
    by_cases he : key e = k
    · rw [he, hnone]
      simp
    · simp [he]
  next hsome =>
    refine List.find?_eq_none.2 fun e _ h => hsome ?_
    obtain ⟨hnone, he⟩ : (find? (key e) bs).isNone ∧ key e = k := by simpa using h
    exact he ▸ hnone

/-- What is found is the entry of the other list, and that of the one where it has none. -/
theorem find?_override (hb : Distinct bs) (k : Bytes) :
    find? k (override as bs) = (find? k bs <|> find? k as) := by
  rw [override_eq hb, find?, List.find?_append]
  show (find? k (as.filter fun e => (find? (key e) bs).isNone)).or (find? k bs) = _
  rw [find?_filter_isNone]
  rcases find? k bs with _ | e
  · simp
  · rfl

theorem override_assoc (hb : Distinct bs) (hc : Distinct cs) :
    override (override as bs) cs = override as (override bs cs) := by
  have hnone (e : α) : ((find? (key e) cs).isNone && (find? (key e) bs).isNone) =
      (find? (key e) (override bs cs)).isNone := by
    rw [find?_override hc]
    cases find? (key e) cs <;> simp
  rw [override_eq hc, override_eq hb, override_eq (hb.override cs), List.filter_append,
    List.filter_filter, List.append_assoc, ← override_eq hc, List.filter_congr fun e _ => hnone e]

theorem override_self (ha : Distinct as) : override as as = as := by
  rw [override_eq ha, List.filter_eq_nil_iff.2, List.nil_append]
  intro e he
  rw [(find?_eq_some_iff ha).2 ⟨he, rfl⟩]
  exact Bool.false_ne_true

theorem nil_override (ha : Distinct as) : override [] as = as := by
  rw [override_eq ha, List.filter_nil, List.nil_append]

/-- Overriding either way comes to the same up to order exactly if what counts of the entries of
a common key is the same. -/
theorem perm_map_override_iff {g : α → β} (hg : ∀ a b, g a = g b → key a = key b)
    (ha : Distinct as) (hb : Distinct bs) :
    ((override as bs).map g).Perm ((override bs as).map g) ↔
      ∀ a ∈ as, ∀ b ∈ bs, key a = key b → g a = g b := by
  simp only [perm_map_iff hg (ha.override bs) (hb.override as), find?_override ha,
    find?_override hb]
  constructor
  · intro h a has b hbs hk
    have hsame := h (key a)
    rw [(find?_eq_some_iff ha).2 ⟨has, rfl⟩, (find?_eq_some_iff hb).2 ⟨hbs, hk.symm⟩] at hsame
    exact (Option.some.inj hsame).symm
  · intro h k
    rcases hfa : find? k as with _ | a <;> rcases hfb : find? k bs with _ | b
    · rfl
    · rfl
    · rfl
    · obtain ⟨has, hka⟩ := key_of_find? hfa
      obtain ⟨hbs, hkb⟩ := key_of_find? hfb
      exact congrArg some (h a has b hbs (hka.trans hkb.symm)).symm

end PartialTx.Keyed
