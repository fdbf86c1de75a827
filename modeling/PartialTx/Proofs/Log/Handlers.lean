import Mathlib.Data.List.Induction
import PartialTx.Proofs.Log.Verbosity

/-! Runs of calls that apply verbosity or ask for the console handler. Each call does to the levels
what its filters say, also behind calls that failed. The console handler is made and put on the root
logger by the first call that asks for it and by no other; its level is that of the latest call that
asked for it, whatever came of the filters of that call. -/

namespace PartialTx.Log

/-! ### Handlers -/

/-- Handlers by number, in the order in which they are made, with their levels; those that are on
the root logger; and the one that is the console handler. -/
structure Handlers where
  levels : List Nat
  onRoot : List Nat
  console? : Option Nat

namespace Handlers

/-- Puts a handler on the root logger, unless it is there. -/
def addToRoot (hs : Handlers) (n : Nat) : Handlers :=
  if n ∈ hs.onRoot then hs else { hs with onRoot := hs.onRoot ++ [n] }

/-- The console handler. If there is none, it is made and put on the root logger; until its level
is set, it takes all messages. -/
def console (hs : Handlers) : Nat × Handlers :=
  match hs.console? with
  | some n => (n, hs)
  | none =>
    let n := hs.levels.length
    (n, { hs with levels := hs.levels ++ [0], console? := some n }.addToRoot n)

/-- Asks for the console handler and sets its level. -/
def install (hs : Handlers) (level : Nat) : Handlers :=
  let (n, hs) := hs.console
  { hs with levels := hs.levels.set n level }

/-- Handlers with one more, which is the console handler and the last one on the root logger. -/
def withConsole (hs : Handlers) (level : Nat) : Handlers where
  levels := hs.levels ++ [level]
  onRoot := hs.onRoot ++ [hs.levels.length]
  console? := some hs.levels.length

/-- There is no console handler yet, and what is on the root logger has been made. -/
structure WithoutConsole (hs : Handlers) : Prop where
  console?_eq : hs.console? = none
  lt_of_mem : ∀ n ∈ hs.onRoot, n < hs.levels.length

section
variable {hs : Handlers} (h : hs.WithoutConsole)
include h

theorem WithoutConsole.notMem : hs.levels.length ∉ hs.onRoot :=
  fun hmem => Nat.lt_irrefl _ (h.lt_of_mem _ hmem)

/-- The first call that asks for the console handler makes it. -/
theorem WithoutConsole.install_eq (level : Nat) : hs.install level = hs.withConsole level := by
  simp [install, console, h.console?_eq, addToRoot, h.notMem, withConsole]

theorem WithoutConsole.count_withConsole (level : Nat) :
    (hs.withConsole level).onRoot.count hs.levels.length = 1 := by
  rw [withConsole, List.count_append, List.count_eq_zero_of_not_mem h.notMem]
  simp

end

/-- A later call changes nothing but its level. -/
theorem install_withConsole (hs : Handlers) (old level : Nat) :
    (hs.withConsole old).install level = hs.withConsole level := by
  simp [install, console, withConsole]

end Handlers

/-! ### Calls -/

inductive Call
  | apply (verbosity : Option Text)
  | install (verbosity : Option Text)

namespace Call

def verbosity : Call → Option Text
  | apply verbosity | install verbosity => verbosity

/-- What a call does to the log, and what comes of it. -/
def on : Call → Log → Except Fault Unit × Log
  | apply verbosity, log => log.applyVerbosity (valueOf verbosity)
  | install verbosity, log => log.install (valueOf verbosity)

/-- The verbosity of a call that asks for the console handler. -/
def installs? : Call → Option (Option Text)
  | apply _ => none
  | install verbosity => some verbosity

end Call

/-- The level of the console handler: all messages with verbosity, and warnings without. -/
def levelFor (verbosity : Option Text) : Nat := if verbosity.getD [] = [] then warning else debug

/-- A call as it goes on in place: the handler is seen to first, and then the filters. -/
def Call.inPlace : Call → Loggers × Handlers → Except Fault Unit × Loggers × Handlers
  | apply verbosity, (ls, hs) =>
    let (outcome, ls) := applyValue (valueOf verbosity) ls
    (outcome, ls, hs)
  | install verbosity, (ls, hs) =>
    let hs := hs.install (levelFor verbosity)
    let (outcome, ls) := applyValue (valueOf verbosity) ls
    (outcome, ls, hs)

/-- Calls one after another, whatever comes of them. -/
def run (calls : List Call) (log : Log) : Log := calls.foldl (fun log call => (call.on log).2) log

def runInPlace (calls : List Call) (state : Loggers × Handlers) : Loggers × Handlers :=
  calls.foldl (fun state call => (call.inPlace state).2) state

/-- The verbosity of the latest call that asked for the console handler. -/
def latest? (calls : List Call) : Option (Option Text) := (calls.filterMap Call.installs?).getLast?

section
variable {log : Log} {hs : Handlers} {calls : List Call}

theorem run_concat (calls : List Call) (call : Call) (log : Log) :
    run (calls ++ [call]) log = (call.on (run calls log)).2 := by
  rw [run, List.foldl_append]
  rfl

theorem runInPlace_concat (calls : List Call) (call : Call) (state : Loggers × Handlers) :
    runInPlace (calls ++ [call]) state = (call.inPlace (runInPlace calls state)).2 := by
  rw [runInPlace, List.foldl_append]
  rfl

theorem latest?_concat (calls : List Call) (call : Call) :
    latest? (calls ++ [call]) = (call.installs?).or (latest? calls) := by
  rw [latest?, List.filterMap_append]
  cases call <;> simp [latest?, Call.installs?]

theorem truth_valueOf (verbosity : Option Text) :
    (if (valueOf verbosity).truth then debug else warning) = levelFor verbosity := by
  rcases verbosity with _ | _ | _ <;> rfl

/-- A call does to the loggers what its filters say. -/
theorem Call.takeEffect (call : Call) (log : Log) :
    TakeEffect (filtersIn call.verbosity) log.loggers (call.on log).1 (call.on log).2.loggers := by
  cases call with
  | apply verbosity | install verbosity =>
    have happlied := takeEffect_applyAll (filtersIn verbosity) log.loggers
    rw [← applyValue_valueOf] at happlied
    exact happlied

theorem Call.console_on (call : Call) (log : Log) :
    (call.on log).2.console = ((call.installs?).map levelFor).or log.console := by
  cases call with
  | apply verbosity => rfl
  | install verbosity => exact congrArg some (truth_valueOf verbosity)

/-- In place a call comes to the same, and does the same to the loggers. -/
theorem Call.inPlace_eq (call : Call) (log : Log) (hs : Handlers) :
    call.inPlace (log.loggers, hs) =
      ((call.on log).1, (call.on log).2.loggers,
        (call.installs?).elim hs fun verbosity => hs.install (levelFor verbosity)) := by
  cases call <;> rfl

/-- The level of the console handler after a run. -/
theorem console_run (calls : List Call) (log : Log) :
    (run calls log).console = ((latest? calls).map levelFor).or log.console := by
  induction calls using List.reverseRecOn with
  | nil => rfl
  | append_singleton calls call ih =>
    rw [run_concat, Call.console_on, latest?_concat, ih]
    cases call.installs? <;> rfl

/-- The handlers after a run: there is a console handler if a call has asked for it. -/
def handlersAfter (hs : Handlers) (calls : List Call) : Handlers :=
  (latest? calls).elim hs fun verbosity => hs.withConsole (levelFor verbosity)

theorem handlersAfter_concat (h : hs.WithoutConsole) (calls : List Call) (call : Call) :
    handlersAfter hs (calls ++ [call]) =
      (call.installs?).elim (handlersAfter hs calls) fun verbosity =>
        (handlersAfter hs calls).install (levelFor verbosity) := by
  rw [handlersAfter, handlersAfter, latest?_concat]
  cases call.installs? with
  | none => rfl
  | some verbosity =>
    show hs.withConsole (levelFor verbosity) = _
    cases latest? calls with
    | none => exact (h.install_eq _).symm
    | some old => exact (hs.install_withConsole _ _).symm

theorem runInPlace_eq (h : hs.WithoutConsole) (calls : List Call) (log : Log) :
    runInPlace calls (log.loggers, hs) = ((run calls log).loggers, handlersAfter hs calls) := by
  induction calls using List.reverseRecOn with
  | nil => rfl
  | append_singleton calls call ih =>
    rw [runInPlace_concat, run_concat, ih, Call.inPlace_eq, handlersAfter_concat h]

/-- Whatever calls there have been, also failed ones, the next call applies its filters from left to
right, up to the first invalid one. In place the run is the same: if a call has asked for the
console handler, one handler has been made and it is on the root logger once, with the level that
goes with the latest verbosity it was asked for with; and if none has, there are the handlers of
before. -/
theorem filters_and_handlers_of_run (hlog : log.console = none) (h : hs.WithoutConsole)
    (calls : List Call) :
    let now := run calls log
    let state := runInPlace calls (log.loggers, hs)
    (∀ call : Call,
      TakeEffect (filtersIn call.verbosity) now.loggers (call.on now).1 (call.on now).2.loggers ∧
      (call.inPlace state).1 = (call.on now).1) ∧
    state.1 = now.loggers ∧
    match latest? calls with
    | none => now.console = none ∧ state.2 = hs
    | some verbosity =>
      now.console = some (levelFor verbosity) ∧
      state.2 = hs.withConsole (levelFor verbosity) ∧
      state.2.onRoot.count hs.levels.length = 1 := by
  intro now state
  have hstate : state = (now.loggers, handlersAfter hs calls) := runInPlace_eq h calls log
  have hconsole := console_run calls log
  refine ⟨fun call => ⟨call.takeEffect now, ?_⟩, congrArg Prod.fst hstate, ?_⟩
  · rw [hstate, Call.inPlace_eq]
  · rw [hstate, handlersAfter]
    cases hlatest : latest? calls with
    | none =>
      rw [hlatest, hlog] at hconsole
      exact ⟨hconsole, rfl⟩
    | some verbosity =>
      rw [hlatest] at hconsole
      exact ⟨hconsole, rfl, h.count_withConsole _⟩

end

/-- A console handler beside another handler. The second call sets two loggers and then fails, and
the third one lowers what the console shows to warnings. -/
theorem filters_and_handlers_of_three_calls :
    let hs : Handlers := { levels := [error], onRoot := [0], console? := none }
    let now := run [.install (some "output=debug")] {}
    let second := Call.apply (some "info,pstcodec.output=warning,bogus,error")
    (∃ fault, (second.on now).1 = .error fault ∧ fault.kind = .badValue) ∧
      (second.on now).2.loggers.ownLevel packageName = info ∧
      (second.on now).2.loggers.ownLevel outputLogger = warning ∧
      (runInPlace [.install (some "output=debug"), second, .install none] (Loggers.initial, hs)).2 =
        { levels := [error, warning], onRoot := [0, 1], console? := some 1 } := by
  intro hs now second
  have hnone : hs.WithoutConsole := ⟨rfl, by decide⟩
  have hlog : ({} : Log).console = none := rfl
  obtain ⟨heffect, -, -⟩ :=
    filters_and_handlers_of_run hlog hnone [.install (some "output=debug")]
  obtain ⟨-, -, -, hhandlers, -⟩ :=
    filters_and_handlers_of_run hlog hnone
      [.install (some "output=debug"), second, .install none]
  have hinfo : Sets "info" packageName info :=
    .package (by decide) (level?_eq_some_iff.1 (by decide))
  have hwarning : Sets "pstcodec.output=warning" outputLogger warning := by
    have h : Sets (lead ++ "output" ++ CodePoint.ofChar '=' :: "warning") (lead ++ "output")
        warning :=
      .qualified (by decide) (by decide) (level?_eq_some_iff.1 (by decide))
    exact h
  have hbogus : ¬ IsFilter "bogus" := by
    rintro ⟨logger, level, h⟩
    obtain ⟨levelName, htext, hlevel⟩ := h.ofText
    have hread : Filter.ofText "bogus" = .ok { logger := packageName, levelName := "bogus" } :=
      ofText_of_notMem (by decide)
    have hunknown : level? "bogus" = none := by decide
    obtain ⟨rfl, rfl⟩ := Filter.mk.inj (Except.ok.inj (hread.symm.trans htext))
    rw [hunknown] at hlevel
    cases hlevel
  obtain ⟨fault, hfault, hkind, hlast⟩ :=
    (heffect second).1.invalid ["info", "pstcodec.output=warning"] "bogus" ["error"]
      [(packageName, info), (outputLogger, warning)] (by decide +kernel)
      (.cons hinfo (.cons hwarning .nil)) hbogus
  refine ⟨⟨fault, hfault, hkind⟩, ?_, ?_, hhandlers⟩
  · exact hlast.last [] (packageName, info) [(outputLogger, warning)] rfl (by decide)
  · exact hlast.last [(packageName, info)] (outputLogger, warning) [] rfl (by decide)

end PartialTx.Log
