import PartialTx.Proofs.CompactSize.Prefix
import PartialTx.Proofs.Origin.Packed
import PartialTx.Proofs.Outcome

/-! Packing and unpacking are inverse to each other, also for the parts that callers give,
whose steps may be of any kind. What can be packed comes out of its packed form again; the
packed forms alone are accepted, and what comes out of one packs to it; every other byte
string is called malformed, be it short, long, or with an unreadable number of leaf hashes. -/

namespace PartialTx.Origin

/-! ### Refusals -/

theorem kind_of_unpack_error {packed : Bytes} {fault : Fault} (h : unpack packed = .error fault) :
    fault.kind = .malformedValue := by
  unfold unpack at h
  split at h
  · cases h
    rfl
  · cases h

/-- The number of leaf hashes is read off a value that is not empty. -/
theorem kind_of_unpackTap_error {packed : Bytes} {fault : Fault}
    (h : unpackTap packed = .error fault) : fault.kind = .malformedValue := by
  have hplain := Stream.plain_ofBytes packed
  unfold unpackTap at h
  split at h
  next =>
    cases h
    rfl
  next hlong =>
    rcases hread : Stream.run CompactSize.read (.ofBytes packed) with ⟨cause | _ | count, t⟩ <;>
      simp only [hread] at h
    · have hcodec : cause.isCodec := by
        have hkind := CompactSize.kind_of_run_read_error hplain (congrArg Prod.fst hread)
        rcases hkind with hkind | hkind <;> simp [Fault.isCodec, hkind, Fault.Kind.codecName?]
      rw [if_pos hcodec] at h
      cases h
      rfl
    · have hnil := (CompactSize.run_read_eq_none_iff hplain).1 (congrArg Prod.fst hread)
      rw [Stream.rest_ofBytes] at hnil
      exact absurd (hnil ▸ Nat.zero_lt_succ 4) hlong
    · split at h
      · cases h
        rfl
      · rcases hu : unpack (t.rest.drop (count * leafHashLength)) with cause | parts <;>
          rw [hu] at h <;> cases h
        exact kind_of_unpack_error hu

/-! ### Steps of any kind -/

/-- The steps are whole numbers of 32 bits, as flags may be, and these are the numbers. -/
def AreNumbers (steps : List Value) (ns : List UInt32) : Prop :=
  steps.map Value.int? = ns.map fun n => some (n.toNat : Int)

theorem areNumbers_cons {step : Value} {steps : List Value} {n : UInt32} {ns : List UInt32} :
    AreNumbers (step :: steps) (n :: ns) ↔ step.int? = some (n.toNat : Int) ∧
      AreNumbers steps ns := by
  simp only [AreNumbers, List.map_cons, List.cons.injEq]

theorem areNumbers_int (ns : List UInt32) : AreNumbers (ns.map fun n => .int n.toNat) ns := by
  rw [AreNumbers, List.map_map]
  rfl

theorem AreNumbers.unique {steps : List Value} {ns ms : List UInt32} (h : AreNumbers steps ns)
    (h' : AreNumbers steps ms) : ns = ms := by
  refine (List.map_inj_right fun m n hmn => ?_).1 (h.symm.trans h')
  exact UInt32.toNat_inj.1 (Int.ofNat_inj.1 (Option.some.inj hmn))

theorem exists_areNumbers_iff {steps : List Value} :
    (∃ ns, AreNumbers steps ns) ↔
      ∀ v ∈ steps, ∃ n : Int, v.int? = some n ∧ 0 ≤ n ∧ n ≤ 0xffffffff := by
  induction steps with
  | nil => exact ⟨fun _ => List.forall_mem_nil _, fun _ => ⟨[], rfl⟩⟩
  | cons v steps ih =>
    rw [List.forall_mem_cons, ← ih]
    constructor
    · rintro ⟨_ | ⟨n, ns⟩, h⟩
      · cases h
      · obtain ⟨hv, hns⟩ := areNumbers_cons.1 h
        have hn := n.toNat_lt
        exact ⟨⟨n.toNat, hv, by omega, by omega⟩, ns, hns⟩
    · rintro ⟨⟨n, hv, hnonneg, hle⟩, ns, hns⟩
      refine ⟨UInt32.ofNat n.toNat :: ns, areNumbers_cons.2 ⟨?_, hns⟩⟩
      have hlt : n.toNat < UInt32.size := by simp only [UInt32.size]; omega
      rw [hv, UInt32.toNat_ofNat_of_lt' hlt, Int.toNat_of_nonneg hnonneg]

theorem packStep_of_int? {v : Value} {n : UInt32} (h : v.int? = some (n.toNat : Int)) :
    packStep v = .ok (word n) := by
  have hn : n.toNat < Bytes.wordCount 4 := n.toNat_lt
  simp only [packStep, h]
  rw [if_pos ⟨by omega, by omega⟩, Int.toNat_natCast]
  rfl

theorem mapM_packStep {steps : List Value} {ns : List UInt32} (h : AreNumbers steps ns) :
    steps.mapM packStep = .ok (ns.map word) := by
  induction steps generalizing ns with
  | nil =>
    rw [List.map_eq_nil_iff.1 h.symm]
    rfl
  | cons v steps ih =>
    rcases ns with _ | ⟨n, ns⟩
    · cases h
    · obtain ⟨hv, hns⟩ := areNumbers_cons.1 h
      rw [List.mapM_cons, packStep_of_int? hv, ih hns]
      rfl

/-! ### What callers pack -/

/-- A fingerprint and a path as a caller gives them. -/
structure Given where
  fingerprint : Bytes
  steps : List Value

/-- Leaf hashes with a fingerprint and a path. -/
structure GivenTap extends Given where
  leafHashes : List Bytes

def Given.pack (g : Given) : Except Fault Bytes :=
  packValues (.bytes g.fingerprint) (.list g.steps)

def GivenTap.pack (g : GivenTap) : Except Fault Bytes :=
  packTapValues (.list (g.leafHashes.map .bytes)) (.bytes g.fingerprint) (.list g.steps)

/-- Four bytes, and whole numbers of 32 bits. -/
structure Given.Packable (g : Given) : Prop where
  length_fingerprint : g.fingerprint.length = 4
  inRange : ∀ v ∈ g.steps, ∃ n : Int, v.int? = some n ∧ 0 ≤ n ∧ n ≤ 0xffffffff

/-- The leaf hashes have 32 bytes each, and their number has a form. -/
structure GivenTap.Packable (g : GivenTap) : Prop extends g.toGiven.Packable where
  length_leafHash : ∀ h ∈ g.leafHashes, h.length = 32
  count_lt : g.leafHashes.length < 0x10000000000000000

theorem Given.pack_of_areNumbers {g : Given} {ns : List UInt32}
    (hf : g.fingerprint.length = 4) (hns : AreNumbers g.steps ns) :
    g.pack = .ok (Origin.pack g.fingerprint ns) := by
  simp only [pack, packValues, Value.length, Value.elements, Value.content, hf, bind, Except.bind,
    mapM_packStep hns, pure, Except.pure, Origin.pack, packPath_eq]
  rfl

theorem forM_checkLeafHash {hs : List Bytes} (h : ∀ a ∈ hs, a.length = leafHashLength) :
    (hs.map Value.bytes).forM checkLeafHash = .ok () := by
  induction hs with
  | nil => rfl
  | cons a hs ih =>
    obtain ⟨ha, hhs⟩ := List.forall_mem_cons.1 h
    have hcheck : checkLeafHash (.bytes a) = .ok () := if_pos ha
    rw [List.map_cons, List.forM_eq_forM, List.forM_cons, hcheck]
    exact ih hhs

theorem mapM_content (hs : List Bytes) : (hs.map Value.bytes).mapM Value.content = .ok hs :=
  mapM_map_eq_ok fun _ _ => rfl

theorem GivenTap.pack_of_areNumbers {g : GivenTap} {ns : List UInt32}
    (h : TapParts g.leafHashes g.fingerprint) (hns : AreNumbers g.steps ns) :
    g.pack = .ok (packTap g.leafHashes g.fingerprint ns) := by
  have hpack : packValues (.bytes g.fingerprint) (.list g.steps) = _ :=
    g.toGiven.pack_of_areNumbers h.length_fingerprint hns
  simp only [pack, packTapValues, Value.elements, bind, Except.bind,
    forM_checkLeafHash h.length_leafHash, mapM_content, hpack, List.length_map, pure, Except.pure,
    packTap]

/-! ### Inverses -/

/-- Unpacking is inverse to packing, where `Same a b` says that `a` and `b` have the same parts:
what can be packed comes out again, the packed forms of what can be packed are accepted and
nothing else is, what comes out of a byte string packs to it, and the others are malformed. -/
structure Inverse {α β : Type} (pack : α → Except Fault Bytes) (unpack : Bytes → Except Fault β)
    (Packable : α → Prop) (Same : α → β → Prop) : Prop where
  unpack_pack : ∀ a, Packable a → ∃ packed b, pack a = .ok packed ∧ unpack packed = .ok b ∧ Same a b
  accepts_iff : ∀ packed, (∃ b, unpack packed = .ok b) ↔ ∃ a, Packable a ∧ pack a = .ok packed
  pack_unpack : ∀ packed b, unpack packed = .ok b →
    (∃ a, Packable a ∧ Same a b) ∧ ∀ a, Same a b → pack a = .ok packed
  malformed : ∀ packed fault, unpack packed = .error fault → fault.kind = .malformedValue

/-- It is enough that unpacking accepts one form for all that has the same parts. -/
theorem Inverse.of_form {α β : Type} {pack : α → Except Fault Bytes}
    {unpack : Bytes → Except Fault β} {Packable : α → Prop} {Same : α → β → Prop}
    (Valid : β → Prop) (form : β → Bytes)
    (hpack : ∀ a b, Valid b → Same a b → pack a = .ok (form b))
    (hunpack : ∀ packed b, unpack packed = .ok b ↔ Valid b ∧ packed = form b)
    (hpackable : ∀ a, Packable a ↔ ∃ b, Valid b ∧ Same a b) (hsame : ∀ b, ∃ a, Same a b)
    (hmalformed : ∀ packed fault, unpack packed = .error fault → fault.kind = .malformedValue) :
    Inverse pack unpack Packable Same where
  unpack_pack := by
    intro a ha
    obtain ⟨b, hb, hab⟩ := (hpackable a).1 ha
    exact ⟨form b, b, hpack a b hb hab, (hunpack _ b).2 ⟨hb, rfl⟩, hab⟩
  accepts_iff := by
    intro packed
    constructor
    · rintro ⟨b, h⟩
      obtain ⟨hb, rfl⟩ := (hunpack packed b).1 h
      obtain ⟨a, hab⟩ := hsame b
      exact ⟨a, (hpackable a).2 ⟨b, hb, hab⟩, hpack a b hb hab⟩
    · rintro ⟨a, ha, h⟩
      obtain ⟨b, hb, hab⟩ := (hpackable a).1 ha
      rw [hpack a b hb hab] at h
      exact ⟨b, (hunpack packed b).2 ⟨hb, (Except.ok.inj h).symm⟩⟩
  pack_unpack := by
    intro packed b h
    obtain ⟨hb, rfl⟩ := (hunpack packed b).1 h
    obtain ⟨a, hab⟩ := hsame b
    exact ⟨⟨a, (hpackable a).2 ⟨b, hb, hab⟩, hab⟩, fun a hab => hpack a b hb hab⟩
  malformed := hmalformed

/-- The parts that were given are the ones that came out. -/
def Given.Same (g : Given) (parts : Bytes × List UInt32) : Prop :=
  g.fingerprint = parts.1 ∧ AreNumbers g.steps parts.2

def GivenTap.Same (g : GivenTap) (parts : List Bytes × Bytes × List UInt32) : Prop :=
  g.leafHashes = parts.1 ∧ g.toGiven.Same parts.2

theorem inverse_unpack : Inverse Given.pack unpack Given.Packable Given.Same := by
  refine .of_form (fun parts => parts.1.length = 4) (fun parts => Origin.pack parts.1 parts.2)
    ?_ (fun packed parts => unpack_eq_ok_iff) (fun g => ?_) (fun (fingerprint, ns) => ?_)
    fun packed fault => kind_of_unpack_error
  · rintro g ⟨_, ns⟩ hf ⟨rfl, hns⟩
    exact g.pack_of_areNumbers hf hns
  · constructor
    · intro h
      obtain ⟨ns, hns⟩ := exists_areNumbers_iff.2 h.inRange
      exact ⟨(g.fingerprint, ns), h.length_fingerprint, rfl, hns⟩
    · rintro ⟨⟨_, ns⟩, hf, rfl, hns⟩
      exact ⟨hf, exists_areNumbers_iff.1 ⟨ns, hns⟩⟩
  · exact ⟨⟨fingerprint, _⟩, rfl, areNumbers_int ns⟩

theorem inverse_unpackTap :
    Inverse GivenTap.pack unpackTap GivenTap.Packable GivenTap.Same := by
  refine .of_form (fun parts => TapParts parts.1 parts.2.1)
    (fun parts => packTap parts.1 parts.2.1 parts.2.2) ?_
    (fun packed parts => unpackTap_eq_ok_iff) (fun g => ?_) (fun (hashes, fingerprint, ns) => ?_)
    fun packed fault => kind_of_unpackTap_error
  · rintro g ⟨_, _, ns⟩ hparts ⟨rfl, rfl, hns⟩
    exact g.pack_of_areNumbers hparts hns
  · constructor
    · intro h
      obtain ⟨ns, hns⟩ := exists_areNumbers_iff.2 h.inRange
      exact ⟨(g.leafHashes, g.fingerprint, ns),
        ⟨h.length_leafHash, h.length_fingerprint, h.count_lt⟩, rfl, rfl, hns⟩
    · rintro ⟨⟨_, _, ns⟩, hparts, rfl, rfl, hns⟩
      exact ⟨⟨hparts.length_fingerprint, exists_areNumbers_iff.1 ⟨ns, hns⟩⟩,
        hparts.length_leafHash, hparts.count_lt⟩
  · exact ⟨⟨⟨fingerprint, _⟩, hashes⟩, rfl, rfl, areNumbers_int ns⟩

/-- Packing and unpacking origins are inverse to each other, with leaf hashes and without. -/
theorem unpacking_inverts_packing :
    Inverse GivenTap.pack unpackTap GivenTap.Packable GivenTap.Same ∧
      Inverse Given.pack unpack Given.Packable Given.Same :=
  ⟨inverse_unpackTap, inverse_unpack⟩

/-- A flag among the steps comes out as a number. A byte behind a fingerprint is malformed. -/
theorem unpacking_of_flag :
    let g : GivenTap :=
      { leafHashes := [List.replicate 32 8], fingerprint := [1, 2, 3, 4]
        steps := [.bool true, .int 0x80000000] }
    g.Packable ∧
      (∃ packed, g.pack = .ok packed ∧
        unpackTap packed = .ok (g.leafHashes, g.fingerprint, [1, 0x80000000])) ∧
      ∃ fault, unpack [1, 2, 3, 4, 5] = .error fault ∧ fault.kind = .malformedValue := by
  intro g
  obtain ⟨htap, hplain⟩ := unpacking_inverts_packing
  have hnumbers : AreNumbers g.steps [1, 0x80000000] := rfl
  have hpackable : g.Packable :=
    ⟨⟨rfl, exists_areNumbers_iff.1 ⟨_, hnumbers⟩⟩, List.forall_mem_singleton.2 rfl, by decide⟩
  obtain ⟨packed, ⟨_, _, ns⟩, hpack, hunpack, rfl, rfl, hns⟩ := htap.unpack_pack g hpackable
  have hns' : ns = _ := hns.unique hnumbers
  rw [hns'] at hunpack
  have hrefused : unpack [1, 2, 3, 4, 5] = .error (.originLength [1, 2, 3, 4, 5]) := rfl
  exact ⟨hpackable, ⟨packed, hpack, hunpack⟩, _, hrefused, hplain.malformed _ _ hrefused⟩

end PartialTx.Origin
