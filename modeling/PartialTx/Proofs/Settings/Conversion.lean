import PartialTx.Output.Decode
import PartialTx.Proofs.Binary64.Range
import PartialTx.Proofs.Outcome
import PartialTx.Proofs.Settings.Lookup

/-! What variables come to. A value that cannot be read as the target of its variable is a fault
that names the key, with two exceptions: a number that the target has no room for is a fault of its
own, and a whole number too long to be written leaves the fault without a message. Decoding looks
at its variables first, and at the stream only if all of them can be read. -/

namespace PartialTx

open PartialTx.Output (decodeInto)

namespace Settings

/-! ### Targets -/

namespace Target

/-- The values of the kind of a target. -/
def Holds : Target → Value → Prop
  | int, v => ∃ n, v = .int n
  | text, v => ∃ t, v = .text t
  | bool, v => ∃ b, v = .bool b
  | float, v => ∃ x, v = .float x

/-- A number that a target has no room for: an infinite one as a whole number, or a whole number
as one of the floating-point format. -/
inductive TooGreat : Target → Value → Prop
  | infinite (negative : Bool) : TooGreat .int (.float (.infinite negative))
  | whole {n : Int} (h : Binary64.overflowThreshold ≤ n.natAbs) : TooGreat .float (.int n)

/-- A value with a whole number that is too long to be written, where it has to be: in the text
that is made of it, or in the message that it cannot be read. -/
inductive TooLong : Target → Value → Prop
  | text {v : Value} (h : v.quoted? = none) : TooLong .text v
  | unreadable {t : Target} (ht : t = .int ∨ t = .float) {v : Value} (hv : v.int? = none)
      (h : v.quoted? = none) : TooLong t v

theorem TooLong.quoted?_eq {t : Target} {v : Value} (h : t.TooLong v) : v.quoted? = none := by
  cases h <;> assumption

theorem TooGreat.not_tooLong {t : Target} {v : Value} (h : t.TooGreat v) : ¬ t.TooLong v := by
  intro hlong
  cases h with
  | infinite negative => cases hlong.quoted?_eq
  | whole =>
    cases hlong with
    | unreadable ht hv => cases hv

/-- What a conversion may come to. -/
inductive Converts (t : Target) (v : Value) : Except Fault Value → Prop
  | value {w : Value} (hgreat : ¬ t.TooGreat v) (hlong : ¬ t.TooLong v) (hw : t.Holds w) :
    Converts t v (.ok w)
  | unreadable {fault : Fault} (hgreat : ¬ t.TooGreat v)
      (hlong : v.quoted? = none → t.TooLong v)
      (hkind : fault.kind = .badValue ∨ fault.kind = .badKind) : Converts t v (.error fault)
  | tooGreat (hgreat : t.TooGreat v) : Converts t v (.error .numberTooGreat)

/-- What is a whole number is never too long to be converted to one of either format. -/
theorem not_tooLong_of_int {t : Target} (ht : t = .int ∨ t = .float) {v : Value} {n : Int}
    (hv : v.int? = some n) : ¬ t.TooLong v := by
  intro h
  cases h with
  | text => cases ht <;> contradiction
  | unreadable _ hnone =>
    rw [hv] at hnone
    cases hnone

/-- Neither is what has a form inside another value. -/
theorem not_tooLong_of_quoted {t : Target} {v : Value} {shown : String}
    (hv : v.quoted? = some shown) : ¬ t.TooLong v := by
  intro h
  rw [h.quoted?_eq] at hv
  cases hv

theorem converts_int (v : Value) : Converts int v (int.convert v) := by
  have hmake (n : Int) : int.Holds (.int n) := ⟨n, rfl⟩
  cases v with
  | int n => exact .value nofun (not_tooLong_of_int (.inl rfl) rfl) ⟨n, rfl⟩
  | bool b => exact .value nofun (not_tooLong_of_int (.inl rfl) rfl) ⟨_, rfl⟩
  | float x =>
    cases x with
    | nan => exact .unreadable nofun (.unreadable (.inl rfl) rfl) (.inl rfl)
    | infinite negative => exact .tooGreat (.infinite negative)
    | finite negative m e => exact .value nofun (not_tooLong_of_quoted rfl) ⟨_, rfl⟩
  | text _ | bytes _ | buffer _ =>
    simp only [convert, Value.toInt, Value.numeral?]
    split
    · exact .value nofun (not_tooLong_of_quoted rfl) (hmake _)
    · exact .unreadable nofun (.unreadable (.inl rfl) rfl) (.inl rfl)
  | null | list _ | object _ => exact .unreadable nofun (.unreadable (.inl rfl) rfl) (.inr rfl)

theorem converts_float (v : Value) : Converts float v (float.convert v) := by
  have hmake (x : Binary64) : float.Holds (.float x) := ⟨x, rfl⟩
  cases v with
  | int n =>
    obtain ⟨hgreat, hfinite⟩ := Binary64.ofInt_eq n
    show Converts float (.int n) ((Value.ofFinite (Binary64.ofInt n)).map .float)
    rcases Nat.lt_or_ge n.natAbs Binary64.overflowThreshold with h | h
    · obtain ⟨m, e, hx⟩ := hfinite h
      rw [hx]
      exact .value (fun | .whole h' => Nat.not_le_of_gt h h')
        (not_tooLong_of_int (.inr rfl) rfl) ⟨_, rfl⟩
    · rw [hgreat h]
      exact .tooGreat (.whole h)
  | bool b => exact .value nofun (not_tooLong_of_int (.inr rfl) rfl) ⟨_, rfl⟩
  | float x => exact .value nofun (not_tooLong_of_quoted rfl) ⟨x, rfl⟩
  | text _ | bytes _ | buffer _ =>
    simp only [convert, Value.toFloat, Value.numeral?]
    split
    · exact .value nofun (not_tooLong_of_quoted rfl) (hmake _)
    · exact .unreadable nofun (.unreadable (.inr rfl) rfl) (.inl rfl)
  | null | list _ | object _ => exact .unreadable nofun (.unreadable (.inr rfl) rfl) (.inr rfl)

theorem converts_text (v : Value) : Converts text v (text.convert v) := by
  rcases hv : v.quoted? with _ | shown
  · have hnone : v.display? = none := by
      cases v <;> first | exact congrArg (Option.map Text.ofString) hv | cases hv
    rw [convert, hnone]
    exact .unreadable nofun .text (.inl rfl)
  · have hsome : ∃ t, v.display? = some t := by
      cases v <;> first | exact ⟨_, rfl⟩ | exact ⟨_, congrArg (Option.map Text.ofString) hv⟩
    obtain ⟨t, ht⟩ := hsome
    rw [convert, ht]
    exact .value nofun (not_tooLong_of_quoted hv) ⟨t, rfl⟩

/-- Every conversion comes to a value of its kind, finds the value unreadable, or finds it too
great. -/
theorem converts (t : Target) (v : Value) : Converts t v (t.convert v) := by
  cases t with
  | int => exact converts_int v
  | text => exact converts_text v
  | bool =>
    refine .value nofun (fun h => ?_) ⟨_, rfl⟩
    cases h with
    | unreadable ht => cases ht <;> contradiction
  | float => exact converts_float v

end Target

/-! ### Variables -/

namespace Variable

/-- What a variable may come to by way of a value that is set or of its default: a value of its
kind or else a fault that names its key. -/
inductive Reported (x : Variable) (t : Target) (v : Value) : Except Fault Value → Prop
  | default (hv : v.isNull) : Reported x t v (.ok x.default)
  | value {w : Value} (hv : v.isNull = false) (hw : t.Holds w) : Reported x t v (.ok w)
  | unreadable {fault : Fault} {key value : String} (hv : v.isNull = false)
      (hkind : fault.kind = .badValue) (hkey : x.key.quoted? = some key)
      (hvalue : v.quoted? = some value)
      (hmessage : fault.message? = some ("config key " ++ key ++ ": cannot read " ++ value ++
        " as " ++ t.name)) : Reported x t v (.error fault)

/-- A fault without a message names no key, and neither does one of another kind. -/
theorem not_reported {x : Variable} {t : Target} {v : Value} {fault : Fault}
    (h : fault.kind ≠ .badValue ∨ fault.message? = none) : ¬ x.Reported t v (.error fault) := by
  intro hreported
  cases hreported with
  | unreadable hv hkind hkey hvalue hmessage =>
    obtain hother | hnone := h
    · exact hother hkind
    · rw [hnone] at hmessage
      cases hmessage

theorem convert_cases {x : Variable} {key : Text} {t : Target} (hkey : x.key = .text key)
    (ht : x.target = some t) {v : Value} (hv : v.isNull = false) :
    ¬ t.TooGreat v ∧ ¬ t.TooLong v ∧ x.Reported t v (x.convert v) ∨
      t.TooGreat v ∧ x.convert v = .error .numberTooGreat ∨
      t.TooLong v ∧ ∃ fault, x.convert v = .error fault ∧ fault.kind = .badValue ∧
        fault.message? = none := by
  have hconverts := t.converts v
  rw [convert, ht]
  dsimp only
  generalize t.convert v = outcome at hconverts
  cases hconverts with
  | value hgreat hlong hw => exact .inl ⟨hgreat, hlong, .value hv hw⟩
  | unreadable hgreat hlong hkind =>
    dsimp only
    rw [if_pos hkind, hkey]
    rcases hshown : v.quoted? with _ | value
    · have hnone : (Fault.settingUnreadable (.text key) v t.name).message? = none := by
        simp [Fault.message?, hshown]
      exact .inr (.inr ⟨hlong hshown, _, rfl, rfl, hnone⟩)
    · have hmessage : (Fault.settingUnreadable (.text key) v t.name).message? =
          some ("config key " ++ Text.quoted key ++ ": cannot read " ++ value ++ " as " ++
            t.name) := by
        simp [Fault.message?, hshown, Value.quoted?]
      exact .inl ⟨hgreat, Target.not_tooLong_of_quoted hshown,
        .unreadable hv rfl (hkey ▸ rfl) hshown hmessage⟩
  | tooGreat hgreat => exact .inr (.inl ⟨hgreat, rfl⟩)

/-- Which way a variable goes is decided by what is set for it. -/
theorem reported_iff {options members : List (Text × Value)} {x : Variable} {key : Text}
    {t : Target} (hkey : x.key = .text key) (ht : x.target = some t) :
    let s := ofParts options (.object members)
    let v := firstSet [held options key, held members key]
    (x.Reported t v (x.read s) ↔ ¬ t.TooGreat v ∧ ¬ t.TooLong v) ∧
      (t.TooGreat v → x.read s = .error .numberTooGreat) ∧
      (t.TooLong v → ∃ fault, x.read s = .error fault ∧ fault.kind = .badValue ∧
        fault.message? = none) := by
  intro s v
  have hread : x.read s = if v.isNull then .ok x.default else x.convert v :=
    read_ofParts options members key hkey
  cases hv : v.isNull with
  | true =>
    have hnot : ¬ t.TooGreat v ∧ ¬ t.TooLong v := by
      rw [Value.isNull_iff.1 hv]
      exact ⟨nofun, Target.not_tooLong_of_quoted rfl⟩
    rw [hread, if_pos hv]
    exact ⟨iff_of_true (.default hv) hnot, fun h => absurd h hnot.1, fun h => absurd h hnot.2⟩
  | false =>
    rw [hread, hv, if_neg Bool.false_ne_true]
    obtain ⟨hgreat, hlong, hreported⟩ | ⟨hgreat, hconvert⟩ | ⟨hlong, fault, hconvert, hfault⟩ :=
      convert_cases hkey ht hv
    · exact ⟨iff_of_true hreported ⟨hgreat, hlong⟩, fun h => absurd h hgreat,
        fun h => absurd h hlong⟩
    · rw [hconvert]
      exact ⟨iff_of_false (not_reported (.inl nofun)) fun h => h.1 hgreat, fun _ => rfl,
        fun h => absurd h hgreat.not_tooLong⟩
    · rw [hconvert]
      exact ⟨iff_of_false (not_reported (.inr hfault.2)) fun h => h.2 hlong,
        fun h => absurd hlong h.not_tooLong, fun _ => ⟨fault, rfl, hfault⟩⟩

end Variable

/-! ### Decoding -/

/-- The variables that decoding looks at, in their order. -/
def consulted (maxValue : Value) : List Variable :=
  (if maxValue.isNull then [.maxValueLength] else []) ++ [.maxKeyLength, .debugParsing]

/-- The first variable that cannot be read decides the fault. -/
theorem reading_of_mapM_error {s : Settings} {maxValue : Value} {fault : Fault}
    (h : (consulted maxValue).mapM (·.read s) = .error fault) :
    s.reading maxValue = .error fault := by
  have hrest (value : Value)
      (h : [Variable.maxKeyLength, .debugParsing].mapM (·.read s) = .error fault) : (do
        let key ← Variable.maxKeyLength.read s
        let debug ← Variable.debugParsing.read s
        return ({ limits := { key, value }, debug := debug.truth } : Reading)) = .error fault := by
    simp only [List.mapM_cons, List.mapM_nil] at h
    generalize Variable.maxKeyLength.read s = key at h ⊢
    generalize Variable.debugParsing.read s = debug at h ⊢
    rcases key with _ | key
    · cases h
      rfl
    · rcases debug with _ | debug <;> cases h
      rfl
  rw [reading]
  rw [consulted] at h
  cases hnull : maxValue.isNull with
  | false =>
    rw [hnull] at h
    exact hrest maxValue h
  | true =>
    rw [hnull, if_pos rfl, List.singleton_append, List.mapM_cons] at h
    rcases hvalue : Variable.maxValueLength.read s with _ | value <;> rw [hvalue] at h
    · cases h
      rfl
    · refine hrest value ?_
      rcases hmapM : [Variable.maxKeyLength, .debugParsing].mapM (·.read s) with _ | vs <;>
        rw [hmapM] at h <;> cases h
      exact hmapM

/-- A variable comes to a value of its kind, to its default or to a fault that names its key,
unless what is set for it is a number that its target has no room for, which is a fault of its own
kind, or holds a number too long for the text or the message, which is a fault without a message.
Decoding fails with the fault of the first variable that cannot be read, and leaves the record and
the stream alone. -/
theorem reported_iff_not_tooGreat_not_tooLong (options members : List (Text × Value)) :
    let s := ofParts options (.object members)
    (∀ (x : Variable) (key : Text) (t : Target), x.key = .text key → x.target = some t →
      let v := firstSet [held options key, held members key]
      (x.Reported t v (x.read s) ↔ ¬ t.TooGreat v ∧ ¬ t.TooLong v) ∧
        (t.TooGreat v → x.read s = .error .numberTooGreat) ∧
        (t.TooLong v → ∃ fault, x.read s = .error fault ∧ fault.kind = .badValue ∧
          fault.message? = none)) ∧
    ∀ (maxValue : Value) (xs : List Variable) (x : Variable) (ys : List Variable) (fault : Fault),
      consulted maxValue = xs ++ x :: ys → (∀ y ∈ xs, ∃ w, y.read s = .ok w) →
      x.read s = .error fault →
      ∀ {σ : Type} [Script σ] (r : Output σ) (stream : Stream),
        decodeInto s maxValue r stream =
          { outcome := .error fault, progress := { state := r, stream }, lines := [] } := by
  intro s
  refine ⟨fun x key t hkey ht => Variable.reported_iff hkey ht, ?_⟩
  intro maxValue xs x ys fault hconsulted hxs hx σ _ r stream
  have hreading : s.reading maxValue = .error fault := by
    apply reading_of_mapM_error
    rw [hconsulted]
    exact mapM_append_error hxs hx
  rw [decodeInto, hreading]

/-- A length that is a word is reported by its key, before a stream is read. -/
theorem reported_of_word :
    let s := ofParts [] (.object [("pst_max_value_length", .text "big")])
    let fault := Fault.settingUnreadable (.text "pst_max_value_length") (.text "big") "int"
    Variable.maxValueLength.read s = .error fault ∧
      Variable.maxValueLength.Reported .int (.text "big") (.error fault) ∧
      ∀ stream, decodeInto s .null ({} : Output Bytes) stream =
        { outcome := .error fault, progress := { state := {}, stream }, lines := [] } := by
  intro s fault
  have hread : Variable.maxValueLength.read s = .error fault := rfl
  obtain ⟨hvariables, hdecode⟩ := reported_iff_not_tooGreat_not_tooLong []
    [("pst_max_value_length", .text "big")]
  have hreported := (hvariables .maxValueLength _ .int rfl rfl).1.2
    ⟨nofun, Target.not_tooLong_of_quoted rfl⟩
  exact ⟨hread, hreported, fun stream => hdecode .null [] _ _ _ rfl nofun hread {} stream⟩

/-- An infinite length is not reported. -/
theorem not_reported_of_infinite :
    let infinity := Value.float (.infinite false)
    let s := ofParts [] (.object [("pst_max_value_length", infinity)])
    Variable.maxValueLength.read s = .error .numberTooGreat ∧
      Fault.numberTooGreat.kind = .overflow ∧
      ¬ Variable.maxValueLength.Reported .int infinity (Variable.maxValueLength.read s) :=
  ⟨rfl, rfl, Variable.not_reported (.inl nofun)⟩

end Settings

end PartialTx
