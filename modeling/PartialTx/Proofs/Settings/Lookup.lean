import PartialTx.Settings.Variable

/-! What is looked up under a key. Options go before the settings of the user, and in both null
counts as not set, for asking whether a key is set as for the variable of the key. A look-up with a
default takes a null that the user has set for a value, and does not come to the default. -/

namespace PartialTx

theorem Value.isNull_iff {v : Value} : v.isNull ↔ v = .null := by
  cases v <;> simp [isNull]

namespace Settings

/-- The first value that is not null; null if there is none. -/
def firstSet : List Value → Value
  | [] => .null
  | v :: vs => if v.isNull then firstSet vs else v

/-- What stands under a name, null if nothing does. -/
def held (members : List (Text × Value)) (name : Text) : Value :=
  (members.lookup name).getD .null

theorem firstSet_null (vs : List Value) : firstSet (.null :: vs) = firstSet vs := rfl

theorem firstSet_of_not_null {v : Value} (h : v.isNull = false) (vs : List Value) :
    firstSet (v :: vs) = v := by
  rw [firstSet, h, if_neg Bool.false_ne_true]

theorem firstSet_singleton (v : Value) : firstSet [v] = v := by
  cases v <;> rfl

theorem firstSet_append (vs ws : List Value) :
    firstSet (vs ++ ws) = if (firstSet vs).isNull then firstSet ws else firstSet vs := by
  induction vs with
  | nil => rfl
  | cons v vs ih =>
    rw [List.cons_append, firstSet, firstSet, ih]
    cases hv : v.isNull with
    | false => simp only [Bool.false_eq_true, if_false, hv]
    | true => simp only [if_true]

theorem isNull_firstSet (vs : List Value) : (firstSet vs).isNull = vs.all Value.isNull := by
  induction vs with
  | nil => rfl
  | cons v vs ih =>
    rw [firstSet, List.all_cons]
    cases hv : v.isNull with
    | false => rw [if_neg Bool.false_ne_true, hv, Bool.false_and]
    | true => rw [if_pos rfl, ih, Bool.true_and]

section
variable (options members : List (Text × Value)) (key : Text)

/-- Settings of the user that are an object are looked up in, whether or not they are empty. -/
theorem user_ofParts : (ofParts options (.object members)).user = .object members := by
  cases members <;> rfl

/-- The settings of the user count, whatever they hold, if no option does. -/
theorem get_ofParts (d : Value) :
    (ofParts options (.object members)).get (.text key) d =
      .ok (if (held options key).isNull then (members.lookup key).getD d
        else held options key) := by
  have huser : userValue (ofParts options (.object members)).user (some key) d =
      .ok ((members.lookup key).getD d) := by
    rw [user_ofParts]
    rfl
  have hoptions : (ofParts options (.object members)).options = options := rfl
  have hheld {entry : Option Value} (h : options.lookup key = entry) :
      held options key = entry.getD .null := by
    rw [held, h]
  simp only [get, keyText?, hoptions, bind, Except.bind, Option.bind]
  split
  next hentry =>
    rw [hheld hentry]
    exact huser
  next hentry =>
    rw [hheld hentry]
    exact huser
  next v hnull hentry =>
    rw [hheld hentry, Option.getD_some, if_neg fun h => hnull (Value.isNull_iff.1 h)]
    rfl

/-- Without a default, null stands for no value. -/
theorem get_null :
    (ofParts options (.object members)).get (.text key) .null =
      .ok (firstSet [held options key, held members key]) := by
  rw [get_ofParts, firstSet, firstSet_singleton]
  rfl

theorem isSet_ofParts :
    (ofParts options (.object members)).isSet (.text key) =
      .ok !(firstSet [held options key, held members key]).isNull := by
  rw [isSet, get_null]
  rfl

/-- A variable goes by the first value that is not null. -/
theorem read_ofParts {x : Variable} (hx : x.key = .text key) :
    let v := firstSet [held options key, held members key]
    x.read (ofParts options (.object members)) =
      if v.isNull then .ok x.default else x.convert v := by
  rw [Variable.read, hx, get_null]
  rfl

/-- A default is taken for a value that is not null, except that a null of the user stays. -/
theorem get_eq_firstSet {d : Value}
    (h : ¬ ((held options key).isNull ∧ members.lookup key = some .null)) :
    (ofParts options (.object members)).get (.text key) d =
      .ok (firstSet [held options key, held members key, d]) := by
  rw [get_ofParts, firstSet]
  split
  next hnull =>
    rw [held]
    rcases hm : members.lookup key with _ | v
    · rw [Option.getD_none, Option.getD_none, firstSet_null, firstSet_singleton]
    · have hv : v.isNull = false := by
        refine Bool.not_eq_true _ ▸ fun hv => h ⟨hnull, ?_⟩
        rw [hm, Value.isNull_iff.1 hv]
      rw [Option.getD_some, Option.getD_some, firstSet_of_not_null hv]
  next => rfl

section
variable {options members key}

theorem isNull_held (hm : members.lookup key = some .null) : (held members key).isNull := by
  rw [held, hm]
  rfl

/-- A null of the user stays whatever the default. -/
theorem get_of_lookup_null (hnull : (held options key).isNull)
    (hm : members.lookup key = some .null) (d : Value) :
    (ofParts options (.object members)).get (.text key) d = .ok .null := by
  rw [get_ofParts, if_pos hnull, hm]
  rfl

end

end

/-- Whether a key is set, and what its variable comes to, go by the first value under the key that
is not null, in the options or else in the settings of the user. A look-up with a default comes to
the first value that is not null, too, except where no option is set and the user has set null: it
comes to null then, whatever the default. -/
theorem get_eq_firstSet_iff (options members : List (Text × Value)) (key : Text) :
    let s := ofParts options (.object members)
    let option := held options key
    let user := held members key
    s.isSet (.text key) = .ok (!option.isNull || !user.isNull) ∧
    ((∀ d, s.get (.text key) d = .ok (firstSet [option, user, d])) ↔
      ¬ (option.isNull ∧ members.lookup key = some .null)) ∧
    (s.isSet (.text key) = .ok true →
      ∃ v, v.isNull = false ∧ (∀ d, s.get (.text key) d = .ok v) ∧
        ∀ x : Variable, x.key = .text key → x.read s = x.convert v) ∧
    (s.isSet (.text key) = .ok false →
      (∀ x : Variable, x.key = .text key → x.read s = .ok x.default) ∧
      (members.lookup key ≠ some .null → ∀ d, s.get (.text key) d = .ok d) ∧
      (members.lookup key = some .null → ∀ d, s.get (.text key) d = .ok .null)) := by
  intro s option user
  have hset : s.isSet (.text key) = .ok !(firstSet [option, user]).isNull := isSet_ofParts ..
  have hfirst : (firstSet [option, user]).isNull = (option.isNull && user.isNull) := by
    rw [isNull_firstSet, List.all_cons, List.all_cons, List.all_nil, Bool.and_true]
  have hread {x : Variable} (hx : x.key = .text key) : x.read s =
      if (firstSet [option, user]).isNull then .ok x.default
      else x.convert (firstSet [option, user]) := read_ofParts options members key hx
  have hlast (d : Value) : firstSet [option, user, d] =
      if (firstSet [option, user]).isNull then d else firstSet [option, user] := by
    have happend := firstSet_append [option, user] [d]
    rwa [firstSet_singleton] at happend
  refine ⟨?_, ⟨fun hall ⟨hnull, hm⟩ => ?_, fun h d => get_eq_firstSet _ _ _ h⟩, fun hok => ?_,
    fun hunset => ?_⟩
  · rw [hset, hfirst, Bool.not_and]
  · have hflag := hall (.bool true)
    have huser : user = .null := Value.isNull_iff.1 (isNull_held hm)
    rw [get_of_lookup_null hnull hm, Value.isNull_iff.1 hnull, huser] at hflag
    cases hflag
  · have hv : (firstSet [option, user]).isNull = false := by
      rwa [hset, Except.ok.injEq, Bool.not_eq_true'] at hok
    refine ⟨firstSet [option, user], hv, fun d => ?_, fun x hx => ?_⟩
    · have hgoes : ¬ (option.isNull ∧ members.lookup key = some .null) := by
        rintro ⟨hnull, hm⟩
        have huser : user.isNull := isNull_held hm
        rw [hfirst, hnull, huser] at hv
        cases hv
      rw [get_eq_firstSet _ _ _ hgoes, hlast, hv, if_neg Bool.false_ne_true]
    · rw [hread hx, hv, if_neg Bool.false_ne_true]
  · have hv : (firstSet [option, user]).isNull = true := by
      rwa [hset, Except.ok.injEq, Bool.not_eq_false'] at hunset
    have hnull : option.isNull := (Bool.and_eq_true_iff.1 (hfirst.symm.trans hv)).1
    refine ⟨fun x hx => ?_, fun hm d => ?_, get_of_lookup_null hnull⟩
    · rw [hread hx, if_pos hv]
    · rw [get_eq_firstSet _ _ _ fun h => hm h.2, hlast, if_pos hv]

/-- A number of the user stands where an option is null, and a default where nothing is. -/
theorem get_of_number :
    let s := ofParts [("k", .null)] (.object [("k", .int 37)])
    s.isSet (.text "k") = .ok true ∧
      (∃ v, v.isNull = false ∧ (∀ d, s.get (.text "k") d = .ok v) ∧
        ∀ x : Variable, x.key = .text "k" → x.read s = x.convert v) ∧
      s.isSet (.text "n") = .ok false ∧ ∀ d, s.get (.text "n") d = .ok d := by
  intro s
  obtain ⟨-, -, hset, -⟩ := get_eq_firstSet_iff [("k", .null)] [("k", .int 37)] "k"
  obtain ⟨-, -, -, hunset⟩ := get_eq_firstSet_iff [("k", .null)] [("k", .int 37)] "n"
  exact ⟨rfl, hset rfl, rfl, (hunset rfl).2.1 nofun⟩

/-- A null of the user is not set, but a look-up does not come to its default. -/
theorem get_of_null :
    let s := ofParts [] (.object [("k", .null)])
    s.isSet (.text "k") = .ok false ∧ s.get (.text "k") (.int 5) = .ok .null ∧
      s.get (.text "k") (.int 5) ≠ .ok (.int 5) := by
  refine ⟨rfl, rfl, nofun⟩

end Settings

end PartialTx
