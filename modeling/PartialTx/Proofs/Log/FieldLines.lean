import Mathlib.Data.List.Basic
import PartialTx.FieldMap
import PartialTx.Log.Console
import PartialTx.Proofs.Bytes.Hex

/-! The lines that fields leave in the log. A line tells the field that left it, and has no break
in it. At the levels that loggers have from the start it goes through, and a console that takes
such messages shows it as one line. -/

namespace PartialTx

/-! ### The text of a line -/

namespace Bytes

/-- The digits that are written. -/
def hexDigits : List Char := "0123456789abcdef".toList

theorem hexDigit_mem {n : UInt8} (h : n < 16) : hexDigit n ∈ hexDigits := by
  obtain ⟨k, rfl⟩ := exists_digit h
  revert k
  decide

theorem mem_hexDigits {bs : Bytes} {c : Char} (h : c ∈ bs.flatMap hexPair) : c ∈ hexDigits := by
  obtain ⟨b, -, hc⟩ := List.mem_flatMap.1 h
  simp only [hexPair, List.mem_cons, List.not_mem_nil, or_false] at hc
  rcases hc with rfl | rfl
  · exact hexDigit_mem (shiftRight_lt b)
  · exact hexDigit_mem (and_lt b)

theorem flatMap_hexPair_inj {as bs : Bytes} (h : as.flatMap hexPair = bs.flatMap hexPair) :
    as = bs := by
  rw [← toList_hex, ← toList_hex] at h
  exact hex_inj (String.toList_inj.1 h)

end Bytes

namespace Field

open PartialTx.Bytes (hexPair hexDigits)

/-- How a line tells a key. -/
def keyWord (key : Bytes) : List Char :=
  if key.isEmpty then "None".toList else key.flatMap hexPair

theorem toList_codeText (code : UInt8) :
    (Fault.codeText code.toNat).toList = '0' :: 'x' :: hexPair code := by
  have hdigits : ∀ n : Fin 256, (if 1 < (Nat.toDigits 16 n).length then Nat.toDigits 16 n
      else '0' :: Nat.toDigits 16 n) = hexPair (UInt8.ofNat n) := by decide +kernel
  have hcode := hdigits ⟨code.toNat, code.toNat_lt⟩
  rw [UInt8.ofNat_toNat] at hcode
  have hpos : ¬ ((code.toNat : Int) < 0) := by omega
  rw [Fault.codeText, String.toList_append, if_neg hpos, Int.natAbs_natCast]
  simp only [hpos, decide_false, Bool.false_or, decide_eq_true_eq, String.toList_ofList, hcode]
  rfl

theorem toList_line (f : Field) :
    f.line.toList = '0' :: 'x' :: hexPair f.code ++
      ' ' :: (keyWord f.key ++ ' ' :: f.value.flatMap hexPair) := by
  have hkey : (if f.key.isEmpty then "None" else f.key.hex).toList = keyWord f.key := by
    unfold keyWord
    split
    · rfl
    · exact Bytes.toList_hex f.key
  rw [line]
  simp only [String.toList_append, toList_codeText, hkey, Bytes.toList_hex, List.append_assoc]
  rfl

/-- The characters of a line, apart from its blanks. -/
def lineLetters : List Char := 'x' :: "None".toList ++ hexDigits

theorem hexPairs_subset (bs : Bytes) : bs.flatMap hexPair ⊆ lineLetters :=
  fun _ hc => List.mem_append_right _ (Bytes.mem_hexDigits hc)

theorem keyWord_subset (key : Bytes) : keyWord key ⊆ lineLetters := by
  unfold keyWord
  split
  · decide
  · exact hexPairs_subset key

theorem keyWord_inj {key key' : Bytes} (h : keyWord key = keyWord key') : key = key' := by
  -- the word for an empty key starts with a letter that is no digit
  have hword {key : Bytes} : key.flatMap hexPair ≠ "None".toList := by
    intro heq
    have hmem : 'N' ∈ key.flatMap hexPair := by
      rw [heq]
      decide
    exact absurd (Bytes.mem_hexDigits hmem) (by decide)
  unfold keyWord at h
  split at h <;> split at h
  next hempty hempty' => rw [List.isEmpty_iff.1 hempty, List.isEmpty_iff.1 hempty']
  next => exact absurd h.symm hword
  next => exact absurd h hword
  next => exact Bytes.flatMap_hexPair_inj h

/-- No two fields leave the same line. -/
theorem line_inj {f g : Field} (h : f.line = g.line) : f = g := by
  have hblank : ' ' ∉ lineLetters := by decide
  have hlist := congrArg String.toList h
  rw [toList_line, toList_line] at hlist
  obtain ⟨hcode, hrest⟩ := List.append_inj hlist rfl
  obtain ⟨hkey, -, hvalue⟩ := (List.append_cons_inj_of_notMem
    (fun hmem => hblank (keyWord_subset f.key hmem))
    fun hmem => hblank (hexPairs_subset f.value hmem)).1 (List.cons.inj hrest).2
  have hpair : [f.code].flatMap hexPair = [g.code].flatMap hexPair := by
    simpa using hcode
  obtain ⟨code, key, value⟩ := f
  rw [mk.injEq]
  exact ⟨List.singleton_inj.1 (Bytes.flatMap_hexPair_inj hpair), keyWord_inj hkey,
    Bytes.flatMap_hexPair_inj hvalue⟩

/-- Lines tell the fields that left them, in their order. -/
theorem map_line_inj {fs gs : List Field} (h : fs.map line = gs.map line) : fs = gs :=
  List.map_injective_iff.2 (fun _ _ => line_inj) h

end Field

/-! ### Lines of text -/

namespace Text

/-- A text with no break in it. -/
def Unbroken (t : Text) : Prop := ∀ p ∈ t, isLineEnd p.toChar = false

theorem Unbroken.append {t u : Text} (ht : t.Unbroken) (hu : u.Unbroken) : Unbroken (t ++ u) :=
  List.forall_mem_append.2 ⟨ht, hu⟩

/-- A text with no break in it is one line when it is ended. -/
theorem lines_append_newline {t : Text} (h : t.Unbroken) : lines (t ++ "\n") = [t] := by
  induction t with
  | nil => rfl
  | cons p t ih =>
    obtain ⟨hp, ht⟩ := List.forall_mem_cons.1 h
    have hreturn : p.toChar ≠ '\r' := fun heq => by
      rw [heq] at hp
      exact absurd hp (by decide)
    rw [List.cons_append, lines, if_neg fun heq => hreturn heq.1, hp, ih ht]
    rfl

end Text

/-- A line of a field is made of letters, digits and blanks. -/
theorem Field.line_subset (f : Field) : f.line.toList ⊆ ' ' :: lineLetters := by
  have hletters {cs : List Char} (h : cs ⊆ lineLetters) : cs ⊆ ' ' :: lineLetters :=
    List.subset_cons_of_subset ' ' h
  have hcode : '0' :: 'x' :: Bytes.hexPair f.code ⊆ lineLetters := by
    have hpair := hexPairs_subset [f.code]
    rw [List.flatMap_singleton] at hpair
    exact List.cons_subset.2 ⟨by decide, List.cons_subset.2 ⟨by decide, hpair⟩⟩
  rw [toList_line]
  refine List.append_subset.2 ⟨hletters hcode, List.cons_subset.2 ⟨List.mem_cons_self, ?_⟩⟩
  refine List.append_subset.2 ⟨hletters (keyWord_subset f.key), ?_⟩
  exact List.cons_subset.2 ⟨List.mem_cons_self, hletters (hexPairs_subset f.value)⟩

theorem Field.unbroken_line (f : Field) : Text.Unbroken f.line := by
  have hletters : (' ' :: lineLetters).all (fun c => !Text.isLineEnd c) = true := by decide
  intro p hp
  obtain ⟨c, hc, rfl⟩ := List.mem_map.1 hp
  have hbreak := List.all_eq_true.1 hletters c (f.line_subset hc)
  rw [CodePoint.toChar_ofChar]
  rwa [Bool.not_eq_true'] at hbreak

/-! ### The loggers -/

namespace Log

namespace Loggers

/-- What loggers can come to from the start. -/
inductive Reached : Loggers → Prop
  | initial : Reached initial
  | make {ls : Loggers} (name : Text) (h : Reached ls) : Reached (ls.make name)
  | set {ls : Loggers} (name : Text) (level : Nat) (h : Reached ls) : Reached (ls.set name level)
  | decided {ls : Loggers} (name : Text) (level : Int) (h : Reached ls) :
    Reached (ls.decision name level).2

/-- Loggers in which the package has the level that it has from the start, and the logger of the
lines none of its own. -/
structure AtStart (ls : Loggers) : Prop where
  reached : ls.Reached
  package_level : ls.ownLevel packageName = debug
  output_level : ls.ownLevel outputLogger = 0

theorem atStart_initial : initial.AtStart where
  reached := .initial
  package_level := by decide +kernel
  output_level := by decide +kernel

theorem effectiveLevel_eq (ls : Loggers) (name : Text) :
    ls.effectiveLevel name =
      if ls.ownLevel name ≠ 0 then ls.ownLevel name
      else
        match ls.parent? name with
        | some parent => ls.effectiveLevel parent
        | none => rootLevel := by
  rw [effectiveLevel]
  split
  · rfl
  · split <;> rename_i h <;> simp only [h]

/-- The level in force for the lines is the one of their logger, or else that of the package. -/
theorem effectiveLevel_outputLogger {ls : Loggers} (h : ls.has packageName = true) :
    ls.effectiveLevel outputLogger =
      if ls.ownLevel outputLogger ≠ 0 then ls.ownLevel outputLogger
      else if ls.ownLevel packageName ≠ 0 then ls.ownLevel packageName else rootLevel := by
  have hheads : heads outputLogger = [packageName] := by decide +kernel
  have hnone : heads packageName = [] := by decide +kernel
  have hparent : ls.parent? outputLogger = some packageName := by
    rw [parent?, hheads, List.find?_cons_of_pos h]
  have hroot : ls.parent? packageName = none := by
    rw [parent?, hnone]
    rfl
  rw [effectiveLevel_eq, hparent]
  dsimp only
  rw [effectiveLevel_eq ls packageName, hroot]

/-- The package is there and no decision on a line is out of date. -/
structure Current (ls : Loggers) : Prop where
  has_package : ls.has packageName = true
  decision_eq : ∀ goes, ls.decisions.lookup ((debug : Int), outputLogger) = some goes →
    ls.passes outputLogger debug = goes

section
variable {ls ls' : Loggers}

theorem passes_congr (h : ls.has packageName = true) (h' : ls'.has packageName = true)
    (hlevels : ∀ name, ls'.ownLevel name = ls.ownLevel name) (level : Int) :
    ls'.passes outputLogger level = ls.passes outputLogger level := by
  rw [passes, passes, effectiveLevel_outputLogger h, effectiveLevel_outputLogger h', hlevels,
    hlevels]

theorem ownLevel_make (ls : Loggers) (name other : Text) :
    (ls.make name).ownLevel other = ls.ownLevel other := by
  have hnew : (List.lookup other [(name, 0)]).getD 0 = 0 := by
    rw [List.lookup_cons, List.lookup_nil]
    cases other == name <;> rfl
  rw [make]
  split
  · rfl
  · rw [ownLevel, ownLevel, List.lookup_append]
    cases ls.levels.lookup other with
    | none => rw [Option.none_or, hnew, Option.getD_none]
    | some level => rfl

theorem has_make {name : Text} (h : ls.has name = true) (other : Text) :
    (ls.make other).has name = true := by
  rw [make]
  split
  · exact h
  · rw [has, Bool.or_eq_true] at h ⊢
    rw [List.any_append, Bool.or_eq_true]
    exact h.imp_right .inl

theorem has_set (name : Text) (other : Text) (level : Nat) :
    (ls.set other level).has name = ls.has name := by
  have hname (l : Text × Nat) : (if l.1 == other then (other, level) else l).1 = l.1 := by
    split
    next h => exact (eq_of_beq h).symm
    next => rfl
  simp only [has, set, List.any_map, Function.comp_def, hname]

/-- A logger that is made takes no level from another. -/
theorem Current.make (h : ls.Current) (name : Text) : (ls.make name).Current := by
  have hpackage := has_make h.has_package name
  have hdecisions : (ls.make name).decisions = ls.decisions := by
    rw [Loggers.make]
    split <;> rfl
  refine ⟨hpackage, fun goes hgoes => ?_⟩
  rw [passes_congr h.has_package hpackage (ownLevel_make ls name)]
  exact h.decision_eq goes (hdecisions ▸ hgoes)

theorem Current.set (h : ls.Current) (name : Text) (level : Nat) :
    (ls.set name level).Current where
  has_package := (has_set packageName name level).trans h.has_package
  decision_eq := nofun

theorem Current.decided (h : ls.Current) (name : Text) (level : Int) :
    (ls.decision name level).2.Current := by
  rw [Loggers.decision]
  split
  · exact h
  · refine ⟨h.has_package, fun goes hgoes => ?_⟩
    dsimp only at hgoes ⊢
    have hsame (decisions : List ((Int × Text) × Bool)) :
        { ls with decisions }.passes outputLogger debug = ls.passes outputLogger debug := by
      have hpackage : { ls with decisions }.has packageName = true := h.has_package
      exact passes_congr h.has_package hpackage (fun _ => rfl) debug
    rw [hsame]
    rw [List.lookup_cons] at hgoes
    split at hgoes
    next heq =>
      obtain ⟨rfl, rfl⟩ := Prod.mk.inj (eq_of_beq heq)
      exact Option.some.inj hgoes
    next => exact h.decision_eq goes hgoes

end

theorem Reached.current {ls : Loggers} (h : ls.Reached) : ls.Current := by
  induction h with
  | initial => exact ⟨by decide +kernel, nofun⟩
  | make name _ ih => exact ih.make name
  | set name level _ ih => exact ih.set name level
  | decided name level _ ih => exact ih.decided name level

theorem AtStart.passes {ls : Loggers} (h : ls.AtStart) : ls.passes outputLogger debug = true := by
  have hlevel : ls.effectiveLevel outputLogger = debug := by
    rw [effectiveLevel_outputLogger h.reached.current.has_package, h.output_level, h.package_level]
    rfl
  rw [Loggers.passes, hlevel]
  decide

/-- The line of a field goes through, and so does the next. -/
theorem AtStart.decision {ls : Loggers} (h : ls.AtStart) :
    ∃ ls', ls.decision outputLogger debug = (true, ls') ∧ ls'.AtStart := by
  have hreached := h.reached.decided outputLogger debug
  rw [Loggers.decision] at hreached ⊢
  rcases hd : ls.decisions.lookup ((debug : Int), outputLogger) with _ | goes <;> rw [hd] at hreached
  · dsimp only
    rw [h.passes]
    exact ⟨_, rfl, h.passes ▸ hreached, h.package_level, h.output_level⟩
  · have hgoes := h.reached.current.decision_eq goes hd
    rw [h.passes] at hgoes
    exact ⟨ls, by rw [hgoes], h⟩

end Loggers

/-! ### The console -/

/-- What the console shows for the line of a field. -/
def shownLine (line : String) : Text := messageText outputLogger debug line

theorem unbroken_shownLine {line : String} (h : Text.Unbroken line) :
    Text.Unbroken (shownLine line) := by
  have hhead : Text.Unbroken ("D | pstcodec.output | " : String) := by
    unfold Text.Unbroken
    decide +kernel
  have heq : shownLine line = (("D | pstcodec.output | " : String) : Text) ++ (line : Text) := by
    have hstart : shownLine "" = (("D | pstcodec.output | " : String) : Text) := by decide +kernel
    rw [← hstart]
    simp only [shownLine, messageText, List.append_assoc]
    rfl
  rw [heq]
  exact hhead.append h

/-- The console shows the line of a field. -/
theorem exists_emit {log : Log} (hloggers : log.loggers.AtStart)
    (hconsole : log.console = some debug) {line : String} (hline : Text.Unbroken line) :
    ∃ loggers, loggers.AtStart ∧ log.emit outputLogger debug line =
      { log with loggers, lines := shownLine line :: log.lines } := by
  obtain ⟨loggers, hgoes, hstart⟩ := hloggers.decision
  refine ⟨loggers, hstart, ?_⟩
  have hshown : shown? { log with loggers } outputLogger debug line = some (shownLine line) := by
    rw [shown?, hconsole]
    rfl
  rw [emit, hgoes]
  dsimp only
  rw [if_pos rfl, hshown]
  dsimp only
  rw [print, Text.lines_append_newline (unbroken_shownLine hline)]
  rfl

/-- The console shows the lines of fields, each as one line, in their order. -/
theorem lines_emitLines {log : Log} (hloggers : log.loggers.AtStart)
    (hconsole : log.console = some debug) (fs : List Field) :
    (log.emitLines (fs.map Field.line)).lines =
      (fs.map fun f => shownLine f.line).reverse ++ log.lines := by
  induction fs generalizing log with
  | nil => rfl
  | cons f fs ih =>
    obtain ⟨loggers, hstart, hemit⟩ := exists_emit hloggers hconsole f.unbroken_line
    have hrest := @ih { log with loggers, lines := shownLine f.line :: log.lines } hstart hconsole
    rw [List.map_cons, emitLines, List.foldl_cons, hemit, ← emitLines, hrest]
    simp

end Log

end PartialTx
