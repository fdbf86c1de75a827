import PartialTx.Value.Access

/-! A byte stream with a position, which records the calls made on it. A stream has an
answer for each read: it may hand out fewer bytes than it is asked for, or fail. It may
also refuse writes after so many. An action on a stream succeeds or fails, and what it
did to the stream stays when it fails. Reading only moves forward, and a read that gets
anything leaves less to read. -/

namespace PartialTx

/-- A call that returned: a read with the size asked for and the number of bytes got, or a
write with what was written. -/
inductive Call
  | read (size : Int) (got : Nat)
  | write (bytes : Bytes)
  deriving DecidableEq, Repr

/-- How a stream answers a read: with as much as is asked for, as far as there is any, with at
most so many bytes, or with a fault. -/
inductive Answer
  | full
  | atMost (count : Nat)
  | fail (fault : Fault)

/-- `answer` tells the answer to each read by the number of reads before it, which `reads`
counts; `calls` holds the latest call first. -/
structure Stream where
  content : Bytes
  position : Nat := 0
  isOpen : Bool := true
  answer : Nat → Answer := fun _ => .full
  reads : Nat := 0
  writesLeft : Option Nat := none
  calls : List Call := []

abbrev StreamM := ExceptT Fault (StateM Stream)

namespace Stream

def ofBytes (content : Bytes) : Stream := { content }

/-- The content that a value of unchecked kind gives a stream; null gives none. -/
def contentOfValue : Value → Except Fault Bytes
  | .null => .ok []
  | v => v.content

/-- The bytes from the position to the end. -/
def rest (s : Stream) : Bytes := s.content.drop s.position

def remaining (s : Stream) : Nat := s.content.length - s.position

/-- Runs an action on a stream. -/
def run {α : Type} (action : StreamM α) (s : Stream) : Except Fault α × Stream :=
  StateT.run (ExceptT.run action) s

/-- An outcome that only an open stream has; a closed one refuses. -/
def whenOpen {α : Type} (s : Stream) (outcome : Except Fault α × Stream) :
    Except Fault α × Stream :=
  if s.isOpen then outcome else (.error .streamClosed, s)

/-- The answer to the next read. -/
def nextAnswer (s : Stream) : Answer := s.answer s.reads

/-- The size that the next read comes down to; a negative one asks for all there is. -/
def capped (s : Stream) (size : Int) : Int :=
  match s.nextAnswer with
  | .atMost count => if size < 0 then count else min size count
  | .full | .fail _ => size

/-- Why the next read fails, if it does. -/
def refusal? (s : Stream) (size : Int) : Option Fault :=
  match s.nextAnswer with
  | .fail fault => some fault
  | .full | .atMost _ =>
    if !Value.isSize (s.capped size) then some .numberTooGreat
    else if s.isOpen then none
    else some .streamClosed

/-- What a read of a size gets. -/
def available (s : Stream) (size : Int) : Bytes :=
  if s.capped size < 0 then s.rest else s.rest.take (s.capped size).toNat

/-- The stream after a read, whatever came of it. -/
def countRead (s : Stream) : Stream := { s with reads := s.reads + 1 }

/-- The stream after a read of a size that got so many bytes. -/
def took (s : Stream) (size : Int) (got : Nat) : Stream :=
  { s.countRead with position := s.position + got, calls := .read size got :: s.calls }

/-- Reads at most so many bytes in one call. -/
def read (size : Int) : StreamM Bytes := ExceptT.mk fun s =>
  match s.refusal? size with
  | some fault => (.error fault, s.countRead)
  | none => (.ok (s.available size), s.took size (s.available size).length)

/-- Reads a size in one call and refuses a short answer. -/
def readExactly (size : Nat) : StreamM Bytes := do
  let got ← read size
  if got.length = size then pure got else throw (.shortRead size got.length)

/-- The content with bytes put at a position: over what is there, and after a gap of zeros
where the content ends before it. -/
def overwrite (content : Bytes) (position : Nat) (bytes : Bytes) : Bytes :=
  if bytes.isEmpty then content
  else
    content.take position ++ List.replicate (position - content.length) 0 ++ bytes
      ++ content.drop (position + bytes.length)

/-- The stream with one write less to come. -/
def countWrite (s : Stream) : Stream := { s with writesLeft := s.writesLeft.map (· - 1) }

/-- The stream after a write. -/
def wrote (s : Stream) (bytes : Bytes) : Stream :=
  { s with
    content := overwrite s.content s.position bytes
    position := s.position + bytes.length
    calls := .write bytes :: s.calls }

/-- Bytes that can be put at the position. Behind a gap of zeros there must be room for the
gap as well, and for one byte more than its end. -/
def fit (s : Stream) (bytes : Bytes) : Except Fault Bytes :=
  if bytes.isEmpty ∨ s.position ≤ s.content.length then .ok bytes
  else (Value.checkLength (s.position + bytes.length + 1)).map fun _ => bytes

theorem fit_of_le {s : Stream} (h : s.position ≤ s.content.length) (bytes : Bytes) :
    s.fit bytes = .ok bytes := if_pos (.inr h)

/-- Writes bytes, if the caller has any to write, in one call. A call that is not refused
counts, whatever comes of it. -/
def writeGiven (given : Except Fault Bytes) : StreamM Unit := ExceptT.mk fun s =>
  if s.writesLeft = some 0 then (.error .writeRefused, s)
  else
    s.countWrite.whenOpen <|
      match given.bind s.fit with
      | .error fault => (.error fault, s.countWrite)
      | .ok bytes => (.ok (), s.countWrite.wrote bytes)

def write (bytes : Bytes) : StreamM Unit := writeGiven (.ok bytes)

/-- Writes chunks in order, one call each, up to the first that fails. -/
def writeAll (chunks : List Bytes) : StreamM Unit := chunks.forM write

def seek (position : Int) : StreamM Nat := ExceptT.mk fun s =>
  if !Value.isSize position then (.error .numberTooGreat, s)
  else
    s.whenOpen <|
      if position < 0 then (.error .positionNegative, s)
      else (.ok position.toNat, { s with position := position.toNat })

def contents : StreamM Bytes := ExceptT.mk fun s => s.whenOpen (.ok s.content, s)

def close : StreamM Unit := modify fun s => { s with isOpen := false }

/-! ### Runs -/

theorem run_bind {α β : Type} (x : StreamM α) (f : α → StreamM β) (s : Stream) :
    run (x >>= f) s =
      match run x s with
      | (.ok a, t) => run (f a) t
      | (.error fault, t) => (.error fault, t) := by
  simp only [run, ExceptT.run, bind, ExceptT.bind, ExceptT.mk, StateT.bind, StateT.run,
    ExceptT.bindCont]
  rcases x s with ⟨_ | _, t⟩ <;> rfl

@[simp] theorem run_pure {α : Type} (a : α) (s : Stream) : run (pure a) s = (.ok a, s) := rfl

@[simp] theorem run_throw {α : Type} (fault : Fault) (s : Stream) :
    run (throw fault : StreamM α) s = (.error fault, s) := rfl

@[simp] theorem run_lift {α : Type} (x : Except Fault α) (s : Stream) :
    run (liftM x : StreamM α) s = (x, s) := rfl

theorem lift_bind {α β : Type} (a : α) (f : α → StreamM β) :
    (liftM (.ok a : Except Fault α) : StreamM α) >>= f = f a := rfl

theorem run_read (size : Int) (s : Stream) :
    run (read size) s =
      match s.refusal? size with
      | some fault => (.error fault, s.countRead)
      | none => (.ok (s.available size), s.took size (s.available size).length) := rfl

theorem writeAll_append (xs ys : List Bytes) :
    writeAll (xs ++ ys) = writeAll xs >>= fun _ => writeAll ys := by
  simp only [writeAll, List.forM_eq_forM]
  rw [List.forM_append]

@[simp] theorem rest_took (s : Stream) (size : Int) (got : Nat) :
    (s.took size got).rest = s.rest.drop got := by
  simp [rest, took, countRead]

theorem remaining_took (s : Stream) (size : Int) (got : Nat) :
    (s.took size got).remaining = s.remaining - got := by
  simp only [remaining, took, countRead]
  omega

/-! ### Progress -/

theorem length_rest (s : Stream) : s.rest.length = s.remaining := List.length_drop

theorem length_available_le (s : Stream) (size : Int) :
    (s.available size).length ≤ s.remaining := by
  unfold available
  split
  · exact Nat.le_of_eq s.length_rest
  · rw [List.length_take, length_rest]
    exact Nat.min_le_right ..

/-- Whatever comes of the action, it leaves no more to read than there was. -/
def Forward {α : Type} (action : StreamM α) : Prop :=
  ∀ s, (run action s).2.remaining ≤ s.remaining

theorem Forward.pure {α : Type} (a : α) : Forward (pure a : StreamM α) := fun _ => Nat.le_refl _

theorem Forward.throw {α : Type} (fault : Fault) : Forward (throw fault : StreamM α) :=
  fun _ => Nat.le_refl _

theorem Forward.lift {α : Type} (x : Except Fault α) : Forward (liftM x : StreamM α) :=
  fun _ => Nat.le_refl _

theorem Forward.bind {α β : Type} {x : StreamM α} {f : α → StreamM β} (hx : Forward x)
    (hf : ∀ a, Forward (f a)) : Forward (x >>= f) := by
  intro s
  rw [run_bind]
  have h := hx s
  rcases hs : run x s with ⟨_ | a, t⟩ <;> simp only [hs] at h ⊢
  · exact h
  · exact Nat.le_trans (hf a t) h

/-- A read takes what it gets from what there is. -/
theorem remaining_of_run_read {size : Int} {s t : Stream} {got : Bytes}
    (h : run (read size) s = (.ok got, t)) : t.remaining + got.length = s.remaining := by
  rw [run_read] at h
  split at h
  · simp at h
  · obtain ⟨hgot, rfl⟩ := Prod.mk.inj h
    cases hgot
    have := length_available_le s size
    rw [remaining_took]
    omega

theorem Forward.read (size : Int) : Forward (read size) := by
  intro s
  rcases hs : run (Stream.read size) s with ⟨fault | got, t⟩
  · rw [run_read] at hs
    split at hs
    · obtain ⟨-, rfl⟩ := Prod.mk.inj hs
      exact Nat.le_refl _
    · simp at hs
  · have := remaining_of_run_read hs
    show t.remaining ≤ s.remaining
    omega

theorem Forward.readExactly (size : Nat) : Forward (readExactly size) := by
  refine .bind (.read size) fun got => ?_
  split
  · exact .pure got
  · exact .throw _

end Stream

end PartialTx
