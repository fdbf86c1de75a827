import PartialTx.Stream

/-! Plans: actions that do nothing to a stream but ask it for bytes, laid open as trees of the
sizes that they ask for. Reading records the requests that were answered; the plan tells all of
them, with the one that a stream did not answer. How many there are, and of which sizes, is
settled by the tree for every stream and every answer. -/

namespace PartialTx.Stream

variable {α β : Type}

/-! ### Requests that were answered -/

/-- `t` is left of `s` by calls that asked for the sizes one after another and returned. -/
def Answered (s t : Stream) (sizes : List Int) : Prop :=
  ∃ got : List Nat, sizes.length = got.length ∧
    t.calls = (List.zipWith Call.read sizes got).reverse ++ s.calls

/-- The sizes were asked for one after another. All calls returned, or all but the last one, which
failed. -/
def Asked (x : Except Fault α) (s t : Stream) (sizes : List Int) : Prop :=
  Answered s t sizes ∨
    (∃ fault, x = .error fault) ∧ ∃ front last, sizes = front ++ [last] ∧ Answered s t front

section
variable {s t u : Stream} {xs ys : List Int} {x : Except Fault α}

/-- One call either fails and leaves the record as it was, or it is recorded. -/
theorem asked_read {size : Int} {y : Except Fault Bytes} (h : run (read size) s = (y, t)) :
    Asked y s t [size] := by
  rw [run_read] at h
  split at h
  next fault _ =>
    obtain ⟨rfl, rfl⟩ := Prod.mk.inj h
    exact .inr ⟨⟨fault, rfl⟩, [], size, rfl, [], rfl, rfl⟩
  next =>
    obtain ⟨rfl, rfl⟩ := Prod.mk.inj h
    exact .inl ⟨[_], rfl, rfl⟩

theorem Answered.refl (s : Stream) : Answered s s [] := ⟨[], rfl, rfl⟩

theorem Answered.trans (h : Answered s t xs) (h' : Answered t u ys) : Answered s u (xs ++ ys) := by
  obtain ⟨got, hlen, ht⟩ := h
  obtain ⟨got', hlen', hu⟩ := h'
  refine ⟨got ++ got', by rw [List.length_append, List.length_append, hlen, hlen'], ?_⟩
  rw [hu, ht, List.zipWith_append hlen, List.reverse_append, List.append_assoc]

theorem Answered.asked_append (h : Answered s t xs) (h' : Asked x t u ys) :
    Asked x s u (xs ++ ys) := by
  obtain h' | ⟨hfault, front, last, rfl, h'⟩ := h'
  · exact .inl (h.trans h')
  · exact .inr ⟨hfault, xs ++ front, last, (List.append_assoc ..).symm, h.trans h'⟩

theorem Asked.answered {a : α} (h : Asked (.ok a) s t xs) : Answered s t xs := by
  obtain h | ⟨⟨_, hfault⟩, -⟩ := h
  · exact h
  · cases hfault

theorem Asked.error {fault : Fault} (h : Asked (.error fault : Except Fault α) s t xs) :
    Asked (.error fault : Except Fault β) s t xs := h.imp id fun ⟨_, h⟩ => ⟨⟨fault, rfl⟩, h⟩

end

/-! ### Plans -/

/-- What is asked for next, and what is done with the answer. -/
inductive Plan (α : Type) where
  | done (a : α)
  | fail (fault : Fault)
  | ask (size : Int) (next : Bytes → Plan α)

namespace Plan

def bind : Plan α → (α → Plan β) → Plan β
  | done a, f => f a
  | fail fault, _ => fail fault
  | ask size next, f => ask size fun got => (next got).bind f

instance : Monad Plan where
  pure := done
  bind := bind

def ofExcept : Except Fault α → Plan α
  | .ok a => done a
  | .error fault => fail fault

def read (size : Int) : Plan Bytes := ask size done

def readExactly (size : Nat) : Plan Bytes := do
  let got ← read size
  if got.length = size then return got else fail (.shortRead size got.length)

/-- The action that asks as the plan says. -/
def action : Plan α → StreamM α
  | done a => pure a
  | fail fault => throw fault
  | ask size next => Stream.read size >>= fun got => (next got).action

/-- The sizes that are asked for in turn, up to a request that is not answered. -/
def requests : Plan α → Stream → List Int
  | done _, _ | fail _, _ => []
  | ask size next, s =>
    size :: match run (Stream.read size) s with
      | (.ok got, t) => (next got).requests t
      | (.error _, _) => []

theorem action_bind (p : Plan α) (f : α → Plan β) :
    (p >>= f).action = p.action >>= fun a => (f a).action := by
  induction p with
  | done a => exact (pure_bind a fun a => (f a).action).symm
  | fail fault => rfl
  | ask size next ih =>
    show Stream.read size >>= (fun got => (next got >>= f).action) = _
    simp only [ih, action, bind_assoc]

theorem action_ofExcept (x : Except Fault α) : (ofExcept x).action = liftM x := by
  rcases x with fault | a <;> rfl

theorem action_read (size : Int) : (read size).action = Stream.read size :=
  bind_pure (Stream.read size)

theorem action_readExactly (size : Nat) : (readExactly size).action = Stream.readExactly size := by
  rw [readExactly, action_bind, action_read, Stream.readExactly]
  congr 1
  funext got
  split <;> rfl

/-- The requests of a plan are those that are recorded, with the one that fails. -/
theorem asked_requests (p : Plan α) (s : Stream) :
    Asked (run p.action s).1 s (run p.action s).2 (p.requests s) := by
  induction p generalizing s with
  | done a => exact .inl (.refl s)
  | fail fault => exact .inl (.refl s)
  | ask size next ih =>
    rw [requests, action, run_bind]
    rcases hread : run (Stream.read size) s with ⟨fault | got, t⟩
    · exact (asked_read hread).error
    · exact (asked_read hread).answered.asked_append (ih got t)

/-! ### Bounds -/

/-- Whatever the answers, at most so many requests are made, and of sizes up to the bound. -/
inductive Within (bound : Int) : Nat → Plan α → Prop
  | done {count : Nat} (a : α) : Within bound count (done a)
  | fail {count : Nat} (fault : Fault) : Within bound count (fail fault)
  | ask {count : Nat} {size : Int} {next : Bytes → Plan α} (hpos : 0 ≤ size) (hle : size ≤ bound)
    (hnext : ∀ got, Within bound count (next got)) : Within bound (count + 1) (ask size next)

namespace Within

variable {bound : Int} {m n : Nat} {p : Plan α}

theorem mono (h : Within bound m p) (hmn : m ≤ n) : Within bound n p := by
  induction h generalizing n with
  | done a => exact .done a
  | fail fault => exact .fail fault
  | ask hpos hle _ ih =>
    obtain ⟨n, rfl⟩ : ∃ k, n = k + 1 := ⟨n - 1, by omega⟩
    exact .ask hpos hle fun got => ih got (by omega)

theorem bind {f : α → Plan β} (h : Within bound m p) (hf : ∀ a, Within bound n (f a)) :
    Within bound (m + n) (p >>= f) := by
  induction h with
  | done a => exact (hf a).mono (Nat.le_add_left ..)
  | fail fault => exact .fail fault
  | ask hpos hle _ ih =>
    rw [Nat.add_right_comm]
    exact .ask hpos hle ih

theorem ite {c : Prop} [Decidable c] {q : Plan α} (hp : c → Within bound m p)
    (hq : ¬ c → Within bound m q) : Within bound m (if c then p else q) := by
  split
  next h => exact hp h
  next h => exact hq h

theorem read {size : Int} (hpos : 0 ≤ size) (hle : size ≤ bound) : Within bound 1 (read size) :=
  .ask hpos hle fun got => .done got

theorem readExactly {size : Nat} (hle : size ≤ bound) : Within bound 1 (readExactly size) :=
  .bind (n := 0) (.read (Int.natCast_nonneg size) hle) fun got =>
    .ite (fun _ => .done got) fun _ => .fail _

theorem requests (h : Within bound m p) (s : Stream) :
    (p.requests s).length ≤ m ∧ ∀ size ∈ p.requests s, 0 ≤ size ∧ size ≤ bound := by
  induction h generalizing s with
  | done a => exact ⟨Nat.zero_le _, List.forall_mem_nil _⟩
  | fail fault => exact ⟨Nat.zero_le _, List.forall_mem_nil _⟩
  | ask hpos hle _ ih =>
    rw [Plan.requests, List.length_cons, List.forall_mem_cons]
    rcases run (Stream.read _) s with ⟨fault | got, t⟩
    · exact ⟨Nat.le_add_left .., ⟨hpos, hle⟩, List.forall_mem_nil _⟩
    · obtain ⟨hlen, hsizes⟩ := ih got t
      exact ⟨Nat.succ_le_succ hlen, ⟨hpos, hle⟩, hsizes⟩

end Within

end Plan

end PartialTx.Stream
