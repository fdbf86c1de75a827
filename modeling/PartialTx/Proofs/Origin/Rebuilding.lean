import PartialTx.Output.Build
import PartialTx.Proofs.Origin.Constructed

/-! Origins built from their views. The members of a view serve as arguments, and the origin
that they make is the one that was viewed, as long as its path holds numbers alone. A flag in
a path shows as a word, which no path can be read from. -/

namespace PartialTx

namespace KeyPath

/-! ### Flags as text -/

theorem ofLevel_boolText (b : Bool) :
    ofLevel (Value.boolText b) = .error (.levelInvalid (Value.boolText b)) := by
  cases b <;> rfl

theorem unflagged_cons {n : UInt32} {p : KeyPath} :
    Unflagged (.index n :: p) ↔ Unflagged p := by
  rw [Unflagged, Unflagged, ofNumbers, numbers, List.map_cons, List.map_cons, List.cons.injEq]
  exact and_iff_right rfl

/-- The first flag of a path is where reading its text stops. -/
theorem mapM_ofLevel_of_flagged {p : KeyPath} (h : ¬ Unflagged p) :
    ∃ b, .flag b ∈ p ∧
      (p.map (levelText usualMark)).mapM ofLevel = .error (.levelInvalid (Value.boolText b)) := by
  induction p with
  | nil => exact absurd rfl h
  | cons i p ih =>
    rw [List.map_cons, List.mapM_cons]
    cases i with
    | flag b =>
      refine ⟨b, List.mem_cons_self, ?_⟩
      rw [levelText, ofLevel_boolText]
      rfl
    | index n =>
      -- What stands in front of the first flag is read without fault.
      obtain ⟨b, hb, hread⟩ := ih (fun hp => h (unflagged_cons.2 hp))
      refine ⟨b, List.mem_cons_of_mem _ hb, ?_⟩
      have hn : ofLevel (levelText usualMark (.index n)) = .ok n :=
        ofLevel_levelText apostrophe_mem_marks n
      rw [hn, hread]
      rfl

theorem unflagged_iff {p : KeyPath} : Unflagged p ↔ ∀ b, .flag b ∉ p := by
  constructor
  · intro h b hb
    rw [h, ofNumbers] at hb
    obtain ⟨n, -, hn⟩ := List.mem_map.1 hb
    cases hn
  · intro h
    by_contra hp
    obtain ⟨b, hb, -⟩ := mapM_ofLevel_of_flagged hp
    exact h b hb

/-- A path of numbers is read back from its text, step by step. -/
theorem stepsOfValue_toText {p : KeyPath} (h : Unflagged p) :
    stepsOfValue (.text (toText usualMark p)) = .ok (p.map ChildIndex.toValue) := by
  have hread : ofText (toText usualMark p) = .ok p.numbers := by
    rw [h, numbers_ofNumbers]
    exact ofText_toText apostrophe_mem_marks p.numbers
  rw [stepsOfValue, hread, Except.map, ← h]

theorem stepsOfValue_toText_of_flagged {p : KeyPath} (h : ¬ Unflagged p) :
    ∃ b, .flag b ∈ p ∧ stepsOfValue (.text (toText usualMark p)) =
      .error (.levelInvalid (Value.boolText b)) := by
  obtain ⟨b, hb, hread⟩ := mapM_ofLevel_of_flagged h
  refine ⟨b, hb, ?_⟩
  have hlevels : levels (toText usualMark p) = p.map (levelText usualMark) :=
    levels_toText apostrophe_mem_marks p
  rw [stepsOfValue, ofText, hlevels, hread, Except.map]

end KeyPath

namespace KeyOrigin

/-! ### Key origins -/

/-- The origin that is built from the members of the view of another. -/
def rebuilt (o : KeyOrigin) : Except Fault KeyOrigin := do
  ofArguments (← Output.argumentsOfValue (← o.view))

theorem rebuilt_eq (o : KeyOrigin) :
    o.rebuilt = ofValues (.text o.key.hex) (.text o.fingerprint.hex)
      (.text (KeyPath.toText KeyPath.usualMark o.path)) := by
  rw [rebuilt, view_eq]
  exact ofArguments_members _ _ _

theorem rebuilt_of_unflagged {o : KeyOrigin} (h : KeyPath.Unflagged o.path) :
    o.rebuilt = .ok o := by
  rw [rebuilt_eq, ofValues_eq_ok_iff]
  exact ⟨Value.toBytes_hex o.key, Value.toBytes_hex o.fingerprint, KeyPath.stepsOfValue_toText h⟩

theorem rebuilt_of_flagged {o : KeyOrigin} (h : ¬ KeyPath.Unflagged o.path) :
    ∃ b, .flag b ∈ o.path ∧ o.rebuilt = .error (.levelInvalid (Value.boolText b)) := by
  obtain ⟨b, hb, hsteps⟩ := KeyPath.stepsOfValue_toText_of_flagged h
  refine ⟨b, hb, ?_⟩
  rw [rebuilt_eq, ofValues, Value.toBytes_hex, Value.toBytes_hex, hsteps]
  rfl

end KeyOrigin

namespace TapOrigin

/-! ### Origins with leaf hashes -/

def rebuilt (o : TapOrigin) : Except Fault TapOrigin := do
  ofArguments (← Output.argumentsOfValue (← o.view))

theorem rebuilt_eq (o : TapOrigin) :
    o.rebuilt = ofValues (.text o.key.hex) (.list (o.leafHashes.map fun h => .text h.hex))
      (.text o.fingerprint.hex) (.text (KeyPath.toText KeyPath.usualMark o.path)) := by
  rw [rebuilt, view_eq]
  exact ofArguments_members _ _ _ _

theorem mapM_toBytes_hex (hashes : List Bytes) :
    (hashes.map fun h => Value.text h.hex).mapM Value.toBytes = .ok (hashes.map some) :=
  mapM_map_eq_ok_map fun h _ => Value.toBytes_hex h

theorem rebuilt_of_unflagged {o : TapOrigin} (h : KeyPath.Unflagged o.path) :
    o.rebuilt = .ok o := by
  rw [rebuilt_eq, ofValues_eq_ok_iff]
  exact ⟨Value.toBytes_hex o.key, ⟨_, rfl, mapM_toBytes_hex o.leafHashes⟩,
    Value.toBytes_hex o.fingerprint, KeyPath.stepsOfValue_toText h⟩

theorem rebuilt_of_flagged {o : TapOrigin} (h : ¬ KeyPath.Unflagged o.path) :
    ∃ b, .flag b ∈ o.path ∧ o.rebuilt = .error (.levelInvalid (Value.boolText b)) := by
  obtain ⟨b, hb, hsteps⟩ := KeyPath.stepsOfValue_toText_of_flagged h
  refine ⟨b, hb, ?_⟩
  simp only [rebuilt_eq, ofValues, Value.toBytes_hex, Value.elements, mapM_toBytes_hex, hsteps,
    bind, Except.bind]

end TapOrigin

namespace Origin

/-! ### Views -/

/-- Either the origin itself is built again, if there is no flag, or an origin cannot be built. -/
def RebuiltUnlessFlagged {α : Type} [BEq α] (path : KeyPath) (o : α) (rebuilt : Except Fault α) :
    Prop :=
  ((∃ o', rebuilt = .ok o' ∧ (o' == o) = true) ↔ ∀ b, .flag b ∉ path) ∧
    (rebuilt = .ok o ∨ ∃ fault, rebuilt = .error fault ∧ fault.kind = .badValue)

theorem rebuiltUnlessFlagged_of {α : Type} [BEq α] {path : KeyPath} {o : α}
    {rebuilt : Except Fault α} (hself : (o == o) = true)
    (hok : KeyPath.Unflagged path → rebuilt = .ok o)
    (hflag : ¬ KeyPath.Unflagged path →
      ∃ b, .flag b ∈ path ∧ rebuilt = .error (.levelInvalid (Value.boolText b))) :
    RebuiltUnlessFlagged path o rebuilt := by
  rw [RebuiltUnlessFlagged, ← KeyPath.unflagged_iff]
  by_cases h : KeyPath.Unflagged path
  · exact ⟨iff_of_true ⟨o, hok h, hself⟩ h, .inl (hok h)⟩
  · obtain ⟨b, -, hb⟩ := hflag h
    refine ⟨iff_of_false ?_ h, .inr ⟨_, hb, rfl⟩⟩
    rintro ⟨o', ho', -⟩
    cases hb.symm.trans ho'

/-- The view of an origin builds an equal origin exactly if its path holds no flag, and then it is
the origin itself; otherwise its text is refused as a bad value. So it is for both kinds. -/
theorem rebuilt_iff_unflagged (o : KeyOrigin) (t : TapOrigin) :
    RebuiltUnlessFlagged o.path o o.rebuilt ∧ RebuiltUnlessFlagged t.path t t.rebuilt :=
  ⟨rebuiltUnlessFlagged_of (beq_self_eq_true o.parts) KeyOrigin.rebuilt_of_unflagged
    KeyOrigin.rebuilt_of_flagged,
  rebuiltUnlessFlagged_of (beq_self_eq_true t.parts) TapOrigin.rebuilt_of_unflagged
    TapOrigin.rebuilt_of_flagged⟩

/-- An origin with a flag for the number one is constructed, but not from its view. -/
theorem not_rebuilt_of_flag :
    ∃ o, KeyOrigin.ofArguments [("pubkey", .bytes (2 :: List.replicate 32 7)),
        ("fingerprint", .bytes [1, 2, 3, 4]), ("path", .list [.bool true])] = .ok o ∧
      o.rebuilt = .error (.levelInvalid "True") := by
  let o : KeyOrigin := ⟨2 :: List.replicate 32 7, [1, 2, 3, 4], [.flag true], rfl, rfl⟩
  have hflagged : ¬ KeyPath.Unflagged o.path :=
    fun h => KeyPath.unflagged_iff.1 h true List.mem_cons_self
  obtain ⟨b, hb, herror⟩ := KeyOrigin.rebuilt_of_flagged hflagged
  cases List.mem_singleton.1 hb
  exact ⟨o, (KeyOrigin.ofArguments_members _ _ _).trans
    (KeyOrigin.ofValues_eq_ok_iff.2 ⟨rfl, rfl, rfl⟩), herror⟩

end Origin

end PartialTx
