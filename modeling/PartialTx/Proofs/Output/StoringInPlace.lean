import PartialTx.Proofs.Output.Storing

/-! Storing as it goes on in a record that is changed in place. For every type the checks
come first and the record is assigned to last, so that a field that is refused leaves the
record as it was, whichever check it is that fails. -/

namespace PartialTx.Output

/-- Actions on a record. What an action did to the record before it failed stays. -/
abbrev RecordM (σ : Type) := ExceptT Fault (StateM (Output σ))

namespace RecordM

variable {σ : Type}

def run {α : Type} (action : RecordM σ α) (r : Output σ) : Except Fault α × Output σ :=
  StateT.run (ExceptT.run action) r

/-- Puts an origin behind the others, unless its key has one. -/
def insertKeyOrigin (o : KeyOrigin) : RecordM σ Unit := do
  let r ← get
  if (r.keyOrigin? o.key).isSome then throw (.duplicateKey .keyOrigin o.key)
  else modify fun r => { r with keyOrigins := r.keyOrigins ++ [o] }

def insertTapOrigin (o : TapOrigin) : RecordM σ Unit := do
  let r ← get
  if (r.tapOrigin? o.key).isSome then throw (.duplicateKey .tapKeyOrigin o.key)
  else modify fun r => { r with tapOrigins := r.tapOrigins ++ [o] }

/-- Stores a field with parts of unchecked kinds. -/
def fill (scriptOf : Value → Except Fault (Option σ)) (code key value : Value) :
    RecordM σ Unit := do
  let type ← typeOfValue code
  let r ← get
  match type with
  | .redeemScript =>
    checkSingle type r.redeemScript key.truth
    let script ← scriptOf value
    modify fun r => { r with redeemScript := script }
  | .witnessScript =>
    checkSingle type r.witnessScript key.truth
    let script ← scriptOf value
    modify fun r => { r with witnessScript := script }
  | .keyOrigin =>
    if Key.hasForm Key.isCompressed key then
      let o ← KeyOrigin.ofFieldValues key value
      insertKeyOrigin o
    else
      let length ← lengthOfKey key
      throw (.keyMalformed type length)
  | .tapInternalKey =>
    checkSingle type r.tapInternalKey key.truth
    if Key.hasForm Key.isXOnly value then
      modify fun r => { r with tapInternalKey := value.bytes? }
    else
      let length ← value.length
      throw (.valueNotXOnlyKey type length)
  | .tapTree =>
    checkSingle type r.tapTree key.truth
    let tree ← scriptOf value
    modify fun r => { r with tapTree := tree }
  | .tapKeyOrigin =>
    if Key.hasForm Key.isXOnly key then
      let o ← TapOrigin.ofFieldValues key value
      insertTapOrigin o
    else
      let length ← lengthOfKey key
      throw (.keyMalformed type length)

/-! ### All or nothing -/

/-- The action makes another record of a record, or fails and leaves it as it was. -/
def Replaces (action : RecordM σ Unit) (r : Output σ) (x : Except Fault (Output σ)) : Prop :=
  run action r =
    match x with
    | .ok r' => (.ok (), r')
    | .error fault => (.error fault, r)

section
variable {r : Output σ} {x y : Except Fault (Output σ)}

theorem replaces_throw (fault : Fault) : Replaces (throw fault) r (.error fault) := rfl

theorem replaces_modify (change : Output σ → Output σ) :
    Replaces (modify change) r (.ok (change r)) := rfl

theorem Replaces.get_bind {next : Output σ → RecordM σ Unit} (h : Replaces (next r) r x) :
    Replaces (get >>= next) r x := h

/-- A check in front of an action leaves the record alone. -/
theorem Replaces.check_bind {α : Type} {check : Except Fault α} {next : α → RecordM σ Unit}
    {f : α → Except Fault (Output σ)} (h : ∀ a, Replaces (next a) r (f a)) :
    Replaces (liftM check >>= next) r (check >>= f) := by
  rcases check with fault | a
  · rfl
  · exact h a

theorem Replaces.ite {c : Prop} [Decidable c] {a b : RecordM σ Unit} (ha : Replaces a r x)
    (hb : Replaces b r y) : Replaces (if c then a else b) r (if c then x else y) := by
  split
  · exact ha
  · exact hb

theorem replaces_insertKeyOrigin (o : KeyOrigin) :
    Replaces (insertKeyOrigin o) r (r.addKeyOrigin o) := by
  have hadd : r.addKeyOrigin o =
      if (r.keyOrigin? o.key).isSome then .error (.duplicateKey .keyOrigin o.key)
      else .ok { r with keyOrigins := r.keyOrigins ++ [o] } := by
    have hfind : Keyed.find? (Keyed.key o) r.keyOrigins = r.keyOrigin? o.key := rfl
    rw [addKeyOrigin, Keyed.add?, hfind]
    cases (r.keyOrigin? o.key).isSome <;> rfl
  rw [hadd]
  exact .get_bind (.ite (replaces_throw _) (replaces_modify _))

theorem replaces_insertTapOrigin (o : TapOrigin) :
    Replaces (insertTapOrigin o) r (r.addTapOrigin o) := by
  have hadd : r.addTapOrigin o =
      if (r.tapOrigin? o.key).isSome then .error (.duplicateKey .tapKeyOrigin o.key)
      else .ok { r with tapOrigins := r.tapOrigins ++ [o] } := by
    have hfind : Keyed.find? (Keyed.key o) r.tapOrigins = r.tapOrigin? o.key := rfl
    rw [addTapOrigin, Keyed.add?, hfind]
    cases (r.tapOrigin? o.key).isSome <;> rfl
  rw [hadd]
  exact .get_bind (.ite (replaces_throw _) (replaces_modify _))

theorem replaces_fill (scriptOf : Value → Except Fault (Option σ)) (code key value : Value)
    (r : Output σ) :
    Replaces (fill scriptOf code key value) r (r.storeValuesWith scriptOf code key value) := by
  unfold fill storeValuesWith
  refine .check_bind fun type => .get_bind ?_
  cases type with
  | redeemScript | witnessScript | tapTree =>
    exact .check_bind fun _ => .check_bind fun script => replaces_modify _
  | tapInternalKey =>
    exact .check_bind fun _ => .ite (replaces_modify _) (.check_bind fun _ => replaces_throw _)
  | keyOrigin =>
    exact .ite (.check_bind fun o => replaces_insertKeyOrigin o)
      (.check_bind fun _ => replaces_throw _)
  | tapKeyOrigin =>
    exact .ite (.check_bind fun o => replaces_insertTapOrigin o)
      (.check_bind fun _ => replaces_throw _)

end

end RecordM

/-! ### Codes -/

section
variable {code : Value} {n : Int}

/-- Flags stand for what they are as numbers. -/
theorem typeOfValue_of_int (h : code.int? = some n) : typeOfValue code = typeOfValue (.int n) := by
  cases code with
  | bool b | int n =>
    cases h
    rfl
  | _ => cases h

theorem typeOfValue_of_ne (h : ∀ type : FieldType, n ≠ type.code.toNat) :
    typeOfValue (.int n) = .error (.unknownType n) := by
  have hnone : FieldType.all.find? (fun t => (t.code.toNat : Int) == n) = none :=
    List.find?_eq_none.2 fun t _ ht => h t (beq_iff_eq.1 ht).symm
  simp only [typeOfValue, Value.int?, hnone]

end

section
variable {σ : Type} {scriptOf : Value → Except Fault (Option σ)} {code value : Value}

/-- A missing key is an empty one. -/
theorem storeValuesWith_null (r : Output σ) : r.storeValuesWith scriptOf code .null value =
    r.storeValuesWith scriptOf code (.bytes []) value := by
  unfold storeValuesWith
  rcases typeOfValue code with fault | type
  · rfl
  · cases type <;> rfl

end

section
variable {σ : Type} [Script σ] {scriptOf : Value → Except Fault (Option σ)}
  (hscript : Script.KeepsBytes scriptOf)
include hscript

/-- A field with a whole number for its code is stored by what its type decides. -/
theorem storeValuesWith_of_type {code : Value} {type : FieldType}
    (h : code.int? = some (type.code.toNat : Int)) (r : Output σ) (key : Option Bytes)
    (value : Bytes) :
    r.storeValuesWith scriptOf code (key.elim .null .bytes) (.bytes value) =
      r.store { code := type.code, key := key.getD [], value } := by
  have hkey : r.storeValuesWith scriptOf code (key.elim .null .bytes) (.bytes value) =
      r.storeValuesWith scriptOf code (.bytes (key.getD [])) (.bytes value) := by
    rcases key with _ | key
    · exact storeValuesWith_null r
    · rfl
  have hcode : r.storeValuesWith scriptOf code (.bytes (key.getD [])) (.bytes value) =
      r.storeValuesWith scriptOf (.int type.code.toNat) (.bytes (key.getD [])) (.bytes value) := by
    simp only [storeValuesWith, typeOfValue_of_int h]
  rw [hkey, hcode]
  exact storeValuesWith_bytes hscript r { code := type.code, key := key.getD [], value }

/-- Storing a field with a whole number for its code, a byte string or nothing for its key, and
a byte string for its value in a record with scripts of any kind. A code of no type is refused.
With the code of a type, storing comes to what the rules for the type decide, and to nothing else.
A field that is refused leaves the record as it was. -/
theorem storeValuesWith_of_int {code : Value} {n : Int} (hn : code.int? = some n)
    (r : Output σ) (key : Option Bytes) (value : Bytes) :
    let outcome := r.storeValuesWith scriptOf code (key.elim .null .bytes) (.bytes value)
    (n < 1 ∨ 6 < n → ∃ fault, outcome = .error fault ∧ fault.kind = .invalidFormat) ∧
    (∀ type : FieldType, n = type.code.toNat → ∀ x,
      outcome.mapError Fault.kind = x ↔ r.Decided (key.getD []) value type x) ∧
    RecordM.Replaces
      (RecordM.fill scriptOf code (key.elim .null .bytes) (.bytes value)) r outcome := by
  intro outcome
  refine ⟨fun hout => ?_, fun type htype x => ?_, RecordM.replaces_fill _ _ _ _ _⟩
  · have hcode (type : FieldType) : 1 ≤ type.code.toNat ∧ type.code.toNat ≤ 6 := by
      cases type <;> decide
    have hne (type : FieldType) : n ≠ type.code.toNat := by
      have := hcode type
      omega
    refine ⟨.unknownType n, ?_, rfl⟩
    simp only [outcome, storeValuesWith, typeOfValue_of_int hn, typeOfValue_of_ne hne]
    rfl
  · rw [htype] at hn
    simp only [outcome, storeValuesWith_of_type hscript hn]
    exact mapError_store_eq_iff rfl

end

/-- A flag for a code and no key, in a record whose tree is a text: the first such field is
stored, and another is refused even if it has a key. -/
theorem storeValues_of_flag :
    let empty : Output Value := { tapTree := some (.text "tree") }
    let r : Output Value := { empty with redeemScript := some (.bytes [0x51]) }
    empty.storeValues (.bool true) .null (.bytes [0x51]) = .ok r ∧
      (r.storeValues (.bool true) (.bytes [7]) (.bytes [])).mapError Fault.kind =
        .error .duplicate := by
  intro empty r
  have hflag : (Value.bool true).int? = some 1 := rfl
  obtain ⟨-, hfirst, -⟩ :=
    storeValuesWith_of_int Script.keepsBytes_given hflag empty none [0x51]
  obtain ⟨-, hagain, -⟩ := storeValuesWith_of_int Script.keepsBytes_given hflag r (some [7]) []
  refine ⟨mapError_eq_ok_iff.1 ((hfirst .redeemScript rfl _).2 ?_),
    (hagain .redeemScript rfl _).2 (.isSet rfl rfl)⟩
  exact .stored rfl trivial (by simp [Has, empty]) .redeemScript

end PartialTx.Output
