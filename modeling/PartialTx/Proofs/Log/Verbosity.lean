import PartialTx.Proofs.KeyPath.Text
import PartialTx.Proofs.Log.FieldLines

/-! What verbosity does to the levels of the loggers. Each filter sets one logger, whichever way it
is spelled, so that of several filters for a logger the last one counts and all other loggers keep
their levels. The filters in front of the first invalid one stay in effect, and that one changes no
level. -/

namespace PartialTx.Log

/-! ### Filters -/

/-- A level by one of its names, in letters of either case. -/
def NamesLevel (name : Text) (level : Nat) : Prop :=
  (String.ofList (name.chars.map upper), level) ∈ levelNames

/-- What stands in front of the names of the loggers below the package. -/
def lead : Text := packageName ++ "."

/-- A filter with the logger that it sets, and the level. A level alone is for the package. With an
equals sign the filter is for the logger of a name below the package, which may have the lead in
front of it, once. -/
inductive Sets : Text → Text → Nat → Prop
  | package {levelName : Text} {level : Nat} (hpart : CodePoint.ofChar '=' ∉ levelName)
      (hlevel : NamesLevel levelName level) : Sets levelName packageName level
  | child {name levelName : Text} {level : Nat} (hname : CodePoint.ofChar '=' ∉ name)
      (hpart : CodePoint.ofChar '=' ∉ levelName) (hlead : ¬ lead <+: name)
      (hlevel : NamesLevel levelName level) :
    Sets (name ++ CodePoint.ofChar '=' :: levelName) (lead ++ name) level
  | qualified {name levelName : Text} {level : Nat} (hname : CodePoint.ofChar '=' ∉ name)
      (hpart : CodePoint.ofChar '=' ∉ levelName) (hlevel : NamesLevel levelName level) :
    Sets (lead ++ name ++ CodePoint.ofChar '=' :: levelName) (lead ++ name) level

/-- A filter that sets a logger. -/
def IsFilter (t : Text) : Prop := ∃ logger level, Sets t logger level

section
variable {t name levelName logger : Text} {level : Nat}

theorem level?_eq_some_iff : level? name = some level ↔ NamesLevel name level := by
  have hnames : (levelNames.map Prod.fst).Nodup := by decide
  rw [level?, NamesLevel, List.lookup_eq_some_iff]
  constructor
  · rintro ⟨before, after, heq, -⟩
    rw [heq]
    exact List.mem_append_right _ List.mem_cons_self
  · intro h
    obtain ⟨before, after, heq⟩ := List.append_of_mem h
    refine ⟨before, after, heq, fun entry hentry => ?_⟩
    rw [heq, List.map_append, List.map_cons, List.nodup_append] at hnames
    have hne := hnames.2.2 _ (List.mem_map_of_mem hentry) _ List.mem_cons_self
    exact bne_iff_ne.2 hne.symm

theorem fullName_of_not_lead (h : ¬ lead <+: name) : fullName name = lead ++ name := by
  have hlead : lead.isPrefixOf name = false := by
    rwa [← Bool.not_eq_true, List.isPrefixOf_iff_prefix]
  show lead ++ (if lead.isPrefixOf name then name.drop lead.length else name) = _
  rw [hlead, if_neg Bool.false_ne_true]

theorem fullName_lead_append (name : Text) : fullName (lead ++ name) = lead ++ name := by
  have hlead : lead.isPrefixOf (lead ++ name) = true :=
    List.isPrefixOf_iff_prefix.2 (List.prefix_append lead name)
  show lead ++ (if lead.isPrefixOf (lead ++ name) then (lead ++ name).drop lead.length
    else lead ++ name) = _
  rw [hlead, if_pos rfl, List.drop_left]

theorem isRoot_lead_append (name : Text) : isRoot (lead ++ name) = false := by
  have hlead : lead = CodePoint.ofChar 'p' :: lead.tail := by decide
  have hname : rootName = CodePoint.ofChar 'r' :: rootName.tail := by decide
  rw [isRoot, hlead, hname, Bool.or_eq_false_iff]
  refine ⟨rfl, beq_eq_false_iff_ne.2 fun heq => ?_⟩
  exact absurd (List.cons.inj heq).1 (by decide)

/-- No filter is for the root. -/
theorem Sets.isRoot_eq (h : Sets t logger level) : isRoot logger = false := by
  cases h with
  | package => decide
  | child | qualified => exact isRoot_lead_append _

/-! ### How filters are read -/

theorem ofText_of_notMem (h : CodePoint.ofChar '=' ∉ t) :
    Filter.ofText t = .ok { logger := packageName, levelName := t } := by
  rw [Filter.ofText, Text.split_eq_splitOn, List.splitOn_eq_singleton h]

theorem ofText_of_notMem_of_notMem (hname : CodePoint.ofChar '=' ∉ name)
    (hpart : CodePoint.ofChar '=' ∉ levelName) :
    Filter.ofText (name ++ CodePoint.ofChar '=' :: levelName) =
      .ok { logger := fullName name, levelName } := by
  rw [Filter.ofText, Text.split_eq_splitOn, List.splitOn_append_cons_self_of_not_mem hname,
    List.splitOn_eq_singleton hpart]

/-- More than one equals sign is refused. -/
theorem ofText_of_notMem_of_mem (hname : CodePoint.ofChar '=' ∉ name)
    (hpart : CodePoint.ofChar '=' ∈ levelName) :
    ∃ fault, Filter.ofText (name ++ CodePoint.ofChar '=' :: levelName) = .error fault := by
  obtain ⟨middle, rest, rfl, hmiddle⟩ := List.eq_append_cons_of_mem hpart
  rw [Filter.ofText, Text.split_eq_splitOn, List.splitOn_append_cons_self_of_not_mem hname,
    List.splitOn_append_cons_self_of_not_mem hmiddle]
  cases hrest : rest.splitOn (CodePoint.ofChar '=') with
  | nil => exact absurd hrest (List.splitOn_ne_nil _ rest)
  | cons piece pieces => exact ⟨_, rfl⟩

theorem Sets.ofText (h : Sets t logger level) :
    ∃ levelName, Filter.ofText t = .ok { logger, levelName } ∧ level? levelName = some level := by
  cases h with
  | package hpart hlevel => exact ⟨_, ofText_of_notMem hpart, level?_eq_some_iff.2 hlevel⟩
  | child hname hpart hlead hlevel =>
    refine ⟨_, ?_, level?_eq_some_iff.2 hlevel⟩
    rw [ofText_of_notMem_of_notMem hname hpart, fullName_of_not_lead hlead]
  | @qualified name levelName level hname hpart hlevel =>
    refine ⟨levelName, ?_, level?_eq_some_iff.2 hlevel⟩
    have hlead : CodePoint.ofChar '=' ∉ lead := by decide
    rw [ofText_of_notMem_of_notMem (fun hmem => (List.mem_append.1 hmem).elim hlead hname) hpart,
      fullName_lead_append]

/-- What is read and names a level is a filter. -/
theorem sets_of_ofText {f : Filter} (h : Filter.ofText t = .ok f)
    (hlevel : level? f.levelName = some level) : Sets t f.logger level := by
  rw [level?_eq_some_iff] at hlevel
  by_cases ht : CodePoint.ofChar '=' ∈ t
  · obtain ⟨name, levelName, rfl, hname⟩ := List.eq_append_cons_of_mem ht
    by_cases hpart : CodePoint.ofChar '=' ∈ levelName
    · obtain ⟨fault, hfault⟩ := ofText_of_notMem_of_mem hname hpart
      rw [hfault] at h
      cases h
    · rw [ofText_of_notMem_of_notMem hname hpart] at h
      cases h
      by_cases hlead : lead <+: name
      · obtain ⟨short, rfl⟩ := hlead
        rw [fullName_lead_append]
        exact .qualified (fun hmem => hname (List.mem_append_right _ hmem)) hpart hlevel
      · rw [fullName_of_not_lead hlead]
        exact .child hname hpart hlead hlevel
  · rw [ofText_of_notMem ht] at h
    cases h
    exact .package ht hlevel

theorem kind_of_ofText_error {fault : Fault} (h : Filter.ofText t = .error fault) :
    fault.kind = .badValue := by
  rw [Filter.ofText] at h
  split at h <;> cases h
  rfl

end

/-! ### Setting levels -/

namespace Loggers

variable {ls : Loggers} {name other : Text}

theorem has_make_self (ls : Loggers) (name : Text) : (ls.make name).has name = true := by
  rw [make]
  split
  next h => exact h
  next => simp [has]

theorem lookup_map_of_ne (h : other ≠ name) (levels : List (Text × Nat)) (level : Nat) :
    (levels.map fun l => if l.1 == name then (name, level) else l).lookup other =
      levels.lookup other := by
  induction levels with
  | nil => rfl
  | cons l levels ih =>
    rw [List.map_cons]
    by_cases hl : l.1 = name
    · have hne : (other == l.1) = false := beq_false_of_ne (hl ▸ h)
      rw [if_pos (beq_iff_eq.2 hl), List.lookup_cons, List.lookup_cons, beq_false_of_ne h, hne]
      exact ih
    · rw [if_neg fun heq => hl (eq_of_beq heq), List.lookup_cons, List.lookup_cons, ih]

theorem lookup_map_self {levels : List (Text × Nat)} (h : levels.any (·.1 == name) = true)
    (level : Nat) :
    (levels.map fun l => if l.1 == name then (name, level) else l).lookup name = some level := by
  induction levels with
  | nil => cases h
  | cons l levels ih =>
    rw [List.map_cons]
    by_cases hl : l.1 = name
    · rw [if_pos (beq_iff_eq.2 hl), List.lookup_cons_self]
    · rw [List.any_cons, beq_false_of_ne hl, Bool.false_or] at h
      rw [if_neg fun heq => hl (eq_of_beq heq), List.lookup_cons, beq_false_of_ne (Ne.symm hl)]
      exact ih h

/-- Setting a logger that is there changes its own level and no other. -/
theorem ownLevel_set (hhas : ls.has name = true) (hroot : isRoot name = false) (level : Nat) :
    (ls.set name level).ownLevel = Function.update ls.ownLevel name level := by
  rw [has, hroot, Bool.false_or] at hhas
  funext other
  by_cases hname : other = name
  · rw [hname, Function.update_self, ownLevel, hroot, if_neg Bool.false_ne_true, set,
      lookup_map_self hhas]
    rfl
  · rw [Function.update_of_ne hname, ownLevel, ownLevel, set, lookup_map_of_ne hname]

end Loggers

/-! ### Filters one after another -/

/-- Levels after some settings of loggers, from left to right. -/
def levelsAfter (settings : List (Text × Nat)) (levels : Text → Nat) : Text → Nat :=
  settings.foldl (fun levels s => Function.update levels s.1 s.2) levels

/-- The last setting of a logger counts, and what no setting is for keeps its level. -/
structure LastCounts (settings : List (Text × Nat)) (levels after : Text → Nat) : Prop where
  last : ∀ earlier s later, settings = earlier ++ s :: later → (∀ s' ∈ later, s'.1 ≠ s.1) →
    after s.1 = s.2
  others : ∀ name, (∀ s ∈ settings, s.1 ≠ name) → after name = levels name

theorem levelsAfter_of_ne {settings : List (Text × Nat)} {name : Text}
    (h : ∀ s ∈ settings, s.1 ≠ name) (levels : Text → Nat) :
    levelsAfter settings levels name = levels name := by
  induction settings generalizing levels with
  | nil => rfl
  | cons s settings ih =>
    obtain ⟨hs, hrest⟩ := List.forall_mem_cons.1 h
    exact (ih hrest _).trans (Function.update_of_ne hs.symm _ _)

theorem lastCounts_levelsAfter (settings : List (Text × Nat)) (levels : Text → Nat) :
    LastCounts settings levels (levelsAfter settings levels) where
  last := by
    rintro earlier s later rfl hlater
    rw [levelsAfter, List.foldl_append, List.foldl_cons]
    exact (levelsAfter_of_ne hlater _).trans (Function.update_self _ _ _)
  others name h := levelsAfter_of_ne h levels

/-- Filters with what they set. -/
def AllSet (ts : List Text) (settings : List (Text × Nat)) : Prop :=
  List.Forall₂ (fun t s => Sets t s.1 s.2) ts settings

section
variable {t logger : Text} {level : Nat} {good : List Text} {settings : List (Text × Nat)}

/-- A filter takes effect, and then come the others. -/
theorem Sets.applyAll_cons (h : Sets t logger level) (rest : List Text) (ls : Loggers) :
    applyAll (t :: rest) ls = applyAll rest ((ls.make logger).set logger level) := by
  obtain ⟨levelName, htext, hlevel⟩ := h.ofText
  simp only [applyAll, htext, Filter.apply, hlevel]

/-- What is no filter stops the rest, and no level is changed. -/
theorem exists_applyAll_of_not_isFilter (h : ¬ IsFilter t) (rest : List Text) (ls : Loggers) :
    ∃ fault ls', applyAll (t :: rest) ls = (.error fault, ls') ∧ fault.kind = .badValue ∧
      ls'.ownLevel = ls.ownLevel := by
  rcases htext : Filter.ofText t with fault | f
  · refine ⟨fault, ls, ?_, kind_of_ofText_error htext, rfl⟩
    simp only [applyAll, htext]
  · have hlevel : level? f.levelName = none :=
      Option.eq_none_iff_forall_ne_some.2 fun level hsome =>
        h ⟨_, level, sets_of_ofText htext hsome⟩
    refine ⟨.levelNameUnknown, ls.make f.logger, ?_, rfl, funext (ls.ownLevel_make f.logger)⟩
    simp only [applyAll, htext, Filter.apply, hlevel]

/-- Filters take effect one after another. -/
theorem AllSet.exists_applyAll (h : AllSet good settings) (rest : List Text) (ls : Loggers) :
    ∃ ls', applyAll (good ++ rest) ls = applyAll rest ls' ∧
      ls'.ownLevel = levelsAfter settings ls.ownLevel := by
  induction h generalizing ls with
  | nil => exact ⟨ls, rfl, rfl⟩
  | @cons t s good settings hset _ ih =>
    obtain ⟨ls', happly, hlevels⟩ := ih ((ls.make s.1).set s.1 s.2)
    refine ⟨ls', (hset.applyAll_cons _ ls).trans happly, hlevels.trans ?_⟩
    rw [Loggers.ownLevel_set (ls.has_make_self s.1) hset.isRoot_eq,
      funext (ls.ownLevel_make s.1)]
    rfl

end

/-! ### Verbosity as a whole -/

/-- The filters of a verbosity: what stands between commas, unless it is empty. An asterisk alone
is none. -/
def filtersIn (verbosity : Option Text) : List Text :=
  match verbosity with
  | none => []
  | some t => if t = allFilters then [] else (t.splitOn (CodePoint.ofChar ',')).filter (· ≠ [])

/-- A verbosity as a value, null for none. -/
def valueOf (verbosity : Option Text) : Value := verbosity.elim .null .text

theorem applyValue_valueOf (verbosity : Option Text) (ls : Loggers) :
    applyValue (valueOf verbosity) ls = applyAll (filtersIn verbosity) ls := by
  cases verbosity with
  | none => rfl
  | some t =>
    cases t with
    | nil => rfl
    | cons p t =>
      show applyText (p :: t) ls = _
      rw [applyText, filtersIn, filtersOf, Text.filter_split]
      split <;> rfl

/-- What some filters do to loggers, and what comes of it. If all are valid, each takes effect; and
if not, those in front of the first invalid one do. -/
structure TakeEffect (ts : List Text) (ls : Loggers) (outcome : Except Fault Unit)
    (ls' : Loggers) : Prop where
  valid : ∀ settings, AllSet ts settings →
    outcome = .ok () ∧ LastCounts settings ls.ownLevel ls'.ownLevel
  invalid : ∀ good t rest settings, ts = good ++ t :: rest → AllSet good settings → ¬ IsFilter t →
    ∃ fault, outcome = .error fault ∧ fault.kind = .badValue ∧
      LastCounts settings ls.ownLevel ls'.ownLevel

theorem takeEffect_applyAll (ts : List Text) (ls : Loggers) :
    TakeEffect ts ls (applyAll ts ls).1 (applyAll ts ls).2 where
  valid settings h := by
    obtain ⟨ls', happly, hlevels⟩ := h.exists_applyAll [] ls
    rw [List.append_nil] at happly
    rw [happly, applyAll, hlevels]
    exact ⟨rfl, lastCounts_levelsAfter settings ls.ownLevel⟩
  invalid := by
    rintro good t rest settings rfl h ht
    obtain ⟨ls', happly, hlevels⟩ := h.exists_applyAll (t :: rest) ls
    obtain ⟨fault, ls'', hfault, hkind, hkept⟩ := exists_applyAll_of_not_isFilter ht rest ls'
    rw [happly, hfault, hkept, hlevels]
    exact ⟨fault, rfl, hkind, lastCounts_levelsAfter settings ls.ownLevel⟩

end PartialTx.Log
