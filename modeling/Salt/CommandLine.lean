import Salt.ArgvScan
import Salt.Orchestration
import Mathlib.Data.List.Forall2

set_option autoImplicit false

/-!
# The command lines of the program

A command line is spelled by its words when they are read as its options and
operands: options short or long, abbreviated or clustered, with the argument
attached or in the next word, before, between or behind the operands.
-/
namespace Salt.CommandLine
open ByteStrings TracedState OptionScan ArgvScan

def settingOf : OptEvent → Option Setting
  | .key v => some (107, some v.bytes)
  | .keyId v => some (105, some v.bytes)
  | .output v => some (111, some v.bytes)
  | .keyFormat v => some (102, some v.bytes)
  | .help => some (104, none)
  | .version => some (86, none)
  | .missingArgument _ | .unknown _ _ => none

def Spelled (posixlyCorrect : Bool) (argc : ℤ) (argv : Option (List (Option CString)))
    (options : List OptEvent) (operands : List CString) : Prop :=
  ∃ settings, List.Forall₂ (fun e o => settingOf e = some o) options settings ∧
    Line (optionTable posixlyCorrect) settings (operands.map CString.bytes) (argvWords argc argv)

theorem CString.ofBuffer_bytes (v : CString) : CString.ofBuffer v.bytes = v := by
  obtain ⟨bytes, h⟩ := v
  simp only [CString.ofBuffer, cstr_of_noNul h]

theorem bytes_ofBuffer {v : Bytes} (h : 0 ∉ v) : (CString.ofBuffer v).bytes = v := cstr_of_noNul h

theorem map_ofBuffer_bytes (l : List CString) : (l.map CString.bytes).map CString.ofBuffer = l := by
  rw [List.map_map]
  exact (List.map_congr_left fun v _ => CString.ofBuffer_bytes v).trans (List.map_id l)

theorem settingEvent_of {e : OptEvent} {o : Setting} (h : settingOf e = some o) :
    settingEvent o.1 (CString.ofBuffer (o.2.getD [])) = e := by
  cases e with
  | missingArgument _ | unknown _ _ => cases h
  | help | version => cases h; rfl
  | key v | keyId v | output v | keyFormat v =>
    cases h
    simp [settingEvent, CString.ofBuffer_bytes]

theorem settingEvents_of {options : List OptEvent} {settings : List Setting}
    (h : List.Forall₂ (fun e o => settingOf e = some o) options settings) :
    (optionEvents settings).map (optEvent CString.ofBuffer) = options := by
  induction h with
  | nil => rfl
  | cons he _ ih => exact List.cons_eq_cons.2 ⟨settingEvent_of he, ih⟩

theorem ofArgv_of_spelled {posixlyCorrect : Bool} {argc : ℤ} {argv : Option (List (Option CString))}
    {options : List OptEvent} {operands : List CString}
    (h : Spelled posixlyCorrect argc argv options operands) :
    ofArgv posixlyCorrect argc argv = ⟨argc, argv, options, operands⟩ := by
  obtain ⟨settings, hsettings, hline⟩ := h
  rw [ofArgv, (scan_iff _ _ _).2 hline]
  simp only [settingEvents_of hsettings, map_ofBuffer_bytes]

theorem optionTable_short {posixlyCorrect : Bool} {c : UInt8} {takesArg : Bool}
    (h : (optionTable posixlyCorrect).short c = some takesArg) :
    (c, takesArg) ∈ longOptions.map fun o => (o.val, o.takesArg) := by
  have hall : ∀ posix, ∀ c ∈ (optionTable posix).optstring, ∀ takesArg,
      (optionTable posix).short c = some takesArg →
        (c, takesArg) ∈ longOptions.map fun o => (o.val, o.takesArg) := by decide
  exact hall _ c (short_mem h) _ h

theorem settingOf_event {posixlyCorrect : Bool} {o : Setting}
    (h : Fits (optionTable posixlyCorrect) o) (hnul : ∀ v ∈ o.2, 0 ∉ v) :
    settingOf (settingEvent o.1 (CString.ofBuffer (o.2.getD []))) = some o := by
  have hmem : (o.1, o.2.isSome) ∈ longOptions.map fun o => (o.val, o.takesArg) := by
    rcases h with hshort | ⟨name, l, hl, hval, harg⟩
    · exact optionTable_short hshort
    · exact List.mem_map.2 ⟨l, long_mem hl, Prod.ext hval harg⟩
  obtain ⟨c, v⟩ := o
  cases v with
  | none =>
    have hc : c = 104 ∨ c = 86 := by simpa [longOptions] using hmem
    rcases hc with rfl | rfl <;> rfl
  | some v =>
    have hc : c = 107 ∨ c = 105 ∨ c = 111 ∨ c = 102 := by simpa [longOptions] using hmem
    rcases hc with rfl | rfl | rfl | rfl <;>
      simp [settingEvent, settingOf, bytes_ofBuffer (hnul v rfl)]

theorem argvWords_noNul (argc : ℤ) (argv : Option (List (Option CString))) :
    ∀ w ∈ argvWords argc argv, 0 ∉ w := by
  intro w hw
  obtain ⟨s, -, rfl⟩ := List.mem_map.1 hw
  cases s with
  | none => exact List.not_mem_nil
  | some s => exact s.noNul

/-- Events that are no complaints come from options. -/
theorem optionEvents_of {events : List OptionScan.Event}
    (h : ∀ e ∈ events, settingOf (optEvent CString.ofBuffer e) ≠ none) :
    ∃ settings, events = optionEvents settings := by
  induction events with
  | nil => exact ⟨[], rfl⟩
  | cons e es ih =>
    obtain ⟨he, hes⟩ := List.forall_mem_cons.1 h
    obtain ⟨settings, rfl⟩ := ih hes
    cases e with
    | option c v => exact ⟨(c, v) :: settings, rfl⟩
    | missing _ | invalid _ | unrecognized _ => exact absurd rfl he

theorem spelled_of_events {posixlyCorrect : Bool} {argc : ℤ}
    {argv : Option (List (Option CString))}
    (h : ∀ e ∈ (ofArgv posixlyCorrect argc argv).events, settingOf e ≠ none) :
    Spelled posixlyCorrect argc argv (ofArgv posixlyCorrect argc argv).events
      (ofArgv posixlyCorrect argc argv).positionals := by
  obtain ⟨settings, hsettings⟩ := optionEvents_of fun e he => h _ (List.mem_map_of_mem he)
  have hline := (scan_iff _ settings _).1 (Prod.ext hsettings rfl)
  have hdrawn := hline.drawn (P := (· ≠ 0)) fun w hw b hb h0 =>
    argvWords_noNul argc argv w hw (h0 ▸ hb)
  refine ⟨settings, ?_, ?_⟩
  · change List.Forall₂ _ ((scan _ _).1.map _) settings
    rw [hsettings, optionEvents, List.map_map, List.forall₂_map_left_iff]
    exact List.forall₂_same.2 fun o ho => settingOf_event (hline.fits o ho)
      fun v hv h0 => hdrawn.options o ho v hv 0 h0 rfl
  · change Line _ settings (((scan _ _).2.map CString.ofBuffer).map CString.bytes) _
    have hbytes : ((scan (optionTable posixlyCorrect) (argvWords argc argv)).2.map
        CString.ofBuffer).map CString.bytes =
        (scan (optionTable posixlyCorrect) (argvWords argc argv)).2 := by
      rw [List.map_map]
      refine (List.map_congr_left fun w hw => ?_).trans (List.map_id _)
      exact bytes_ofBuffer fun h0 => hdrawn.operands w hw 0 h0 rfl
    rw [hbytes]
    exact hline

def prefixed (name : Bytes) (v : CString) (h : 0 ∉ name := by decide) : CString :=
  ⟨name ++ v.bytes, fun h0 => (List.mem_append.1 h0).elim h v.noNul⟩

def canonicalWord : OptEvent → CString
  | .key v => prefixed (ascii "--key=") v
  | .keyId v => prefixed (ascii "--key-id=") v
  | .output v => prefixed (ascii "--output=") v
  | .keyFormat v => prefixed (ascii "--key-format=") v
  | .help => .ofAscii "--help"
  | .version => .ofAscii "--version"
  | .missingArgument _ | .unknown _ _ => emptyString

def canonicalWords (options : List OptEvent) (operands : List CString) : List CString :=
  options.map canonicalWord ++ CString.ofAscii "--" :: operands

def canonicalArgv (program : CString) (options : List OptEvent) (operands : List CString) :
    List (Option CString) := (program :: canonicalWords options operands).map some

def canonical (posixlyCorrect : Bool) (program : CString) (options : List OptEvent)
    (operands : List CString) : Invocation :=
  ofArgv posixlyCorrect (canonicalArgv program options operands).length
    (some (canonicalArgv program options operands))

section Canonical
variable {posixlyCorrect : Bool} {options : List OptEvent} {operands : List CString}

theorem canonicalWord_spells {e : OptEvent} {o : Setting} (h : settingOf e = some o) :
    Spells (optionTable posixlyCorrect) [o] [(canonicalWord e).bytes] := by
  cases e with
  | missingArgument _ | unknown _ _ => cases h
  | key v =>
    cases h
    exact @Spells.longAttached _ (ascii "key") _ ⟨ascii "key", true, 107⟩ (by decide)
      (by cases posixlyCorrect <;> decide) rfl
  | keyId v =>
    cases h
    exact @Spells.longAttached _ (ascii "key-id") _ ⟨ascii "key-id", true, 105⟩ (by decide)
      (by cases posixlyCorrect <;> decide) rfl
  | output v =>
    cases h
    exact @Spells.longAttached _ (ascii "output") _ ⟨ascii "output", true, 111⟩ (by decide)
      (by cases posixlyCorrect <;> decide) rfl
  | keyFormat v =>
    cases h
    exact @Spells.longAttached _ (ascii "key-format") _ ⟨ascii "key-format", true, 102⟩ (by decide)
      (by cases posixlyCorrect <;> decide) rfl
  | help =>
    cases h
    exact @Spells.long _ (ascii "help") ⟨ascii "help", false, 104⟩ (by decide) (by decide)
      (by cases posixlyCorrect <;> decide) rfl
  | version =>
    cases h
    exact @Spells.long _ (ascii "version") ⟨ascii "version", false, 86⟩ (by decide) (by decide)
      (by cases posixlyCorrect <;> decide) rfl

theorem canonicalWords_line {settings : List Setting}
    (h : List.Forall₂ (fun e o => settingOf e = some o) options settings) :
    Line (optionTable posixlyCorrect) settings (operands.map CString.bytes)
      ((canonicalWords options operands).map CString.bytes) := by
  induction h with
  | nil => exact .terminator
  | cons he _ ih => exact .option (canonicalWord_spells he) ih

theorem argvWords_canonical (program : CString) :
    argvWords (canonicalArgv program options operands).length
      (some (canonicalArgv program options operands)) =
        (canonicalWords options operands).map CString.bytes := by
  simp [argvWords, canonicalArgv, Function.comp_def]

theorem canonical_eq {program : CString} {settings : List Setting}
    (h : List.Forall₂ (fun e o => settingOf e = some o) options settings) :
    canonical posixlyCorrect program options operands =
      ⟨(canonicalArgv program options operands).length,
        some (canonicalArgv program options operands), options, operands⟩ := by
  refine ofArgv_of_spelled ⟨settings, h, ?_⟩
  rw [argvWords_canonical]
  exact canonicalWords_line h

theorem canonical_program (program : CString) :
    (⟨(canonicalArgv program options operands).length,
      some (canonicalArgv program options operands), options, operands⟩ : Invocation).program =
        program := rfl

theorem canonical_shape {program : CString} (hne : program.bytes ≠ []) :
    saltCliHasValidArgvShape ⟨(canonicalArgv program options operands).length,
      some (canonicalArgv program options operands), options, operands⟩ = true := by
  have harg (i : ℕ) (hi : i < (canonicalArgv program options operands).length) :
      ((canonicalArgv program options operands).getD i none).isSome = true := by
    rw [List.getD_eq_getElem?_getD, List.getElem?_eq_getElem hi]
    exact congrArg Option.isSome (List.getElem_map some)
  simp only [saltCliHasValidArgvShape, Bool.and_eq_true, decide_eq_true_eq, List.all_eq_true,
    List.mem_range, Int.toNat_natCast, Invocation.arg]
  refine ⟨⟨⟨?_, rfl⟩, ?_⟩, harg⟩
  · simp [canonicalArgv]
  · simpa [canonicalArgv] using hne

end Canonical

section Runs
variable {inv inv' : Invocation}

theorem dispatchOptions_congr (hprogram : inv.program = inv'.program)
    (hpositionals : inv.positionals = inv'.positionals) :
    dispatchOptions inv = dispatchOptions inv' := by
  simp only [dispatchOptions, checkOptions, hprogram, hpositionals]

theorem saltCliRunWithStreamsInternal_congr
    (hshape : saltCliHasValidArgvShape inv = saltCliHasValidArgvShape inv')
    (hprogram : inv.program = inv'.program) (hevents : inv.events = inv'.events)
    (hpositionals : inv.positionals = inv'.positionals) (nullStream manageSignals : Bool) :
    saltCliRunWithStreamsInternal inv nullStream manageSignals =
      saltCliRunWithStreamsInternal inv' nullStream manageSignals := by
  simp only [saltCliRunWithStreamsInternal, runStages, runArguments, saltCliArgsParseArguments,
    hshape, hevents, dispatchOptions_congr hprogram hpositionals]

theorem program_ne_nil (h : saltCliHasValidArgvShape inv = true) : inv.program.bytes ≠ [] := by
  simp only [saltCliHasValidArgvShape, Bool.and_eq_true] at h
  obtain ⟨⟨-, hprogram⟩, -⟩ := h
  unfold Invocation.program
  cases hp : inv.arg 0 with
  | none => simp [hp] at hprogram
  | some p => simpa [hp] using hprogram

end Runs

/-- However a command line is spelled, and whether or not operands may stand before options, the run
is the run of the canonical words: of the vector nothing else can be seen, from any world. -/
theorem saltCliRunWithStreamsInternal_canonical (posixlyCorrect posixlyCorrect' : Bool) (argc : ℤ)
    (argv : Option (List (Option CString))) (options : List OptEvent) (operands : List CString)
    (nullStream manageSignals : Bool) (hspelled : Spelled posixlyCorrect argc argv options operands)
    (hshape : saltCliHasValidArgvShape (ofArgv posixlyCorrect argc argv) = true) :
    saltCliRunWithStreamsInternal (ofArgv posixlyCorrect argc argv) nullStream manageSignals =
      saltCliRunWithStreamsInternal (canonical posixlyCorrect'
        (ofArgv posixlyCorrect argc argv).program options operands) nullStream manageSignals := by
  have hargv := ofArgv_of_spelled hspelled
  obtain ⟨settings, hsettings, -⟩ := hspelled
  have hne := program_ne_nil hshape
  rw [canonical_eq hsettings]
  refine saltCliRunWithStreamsInternal_congr ?_ (canonical_program _).symm ?_ ?_ _ _
  · rw [hshape, canonical_shape hne]
  · rw [hargv]
  · rw [hargv]

/-- The operand in front, an option with its argument attached, an abbreviation, a separate argument. -/
def sampleArgv (program operand key : CString) : List (Option CString) :=
  [some program, some operand, some (.ofAscii "-otext"), some (.ofAscii "--key-f"),
    some (.ofAscii "auto"), some (.ofAscii "--key"), some key]

def sampleOptions (key : CString) : List OptEvent :=
  [.output (.ofAscii "text"), .keyFormat (.ofAscii "auto"), .key key]

theorem sampleArgv_spelled (program operand key : CString)
    (hoperand : isOperand operand.bytes = true) :
    Spelled false 7 (some (sampleArgv program operand key)) (sampleOptions key) [operand] := by
  refine ⟨[(111, some (ascii "text")), (102, some (ascii "auto")), (107, some key.bytes)],
    .cons rfl (.cons rfl (.cons rfl .nil)), ?_⟩
  refine .operand hoperand rfl (@Line.option _ [_] _ _ [_] _ ?_
    (@Line.option _ [_] _ _ [_, _] _ ?_ (@Line.option _ [_] _ _ [_, _] _ ?_ .nil)))
  · exact .short (by decide) (.attached (by decide) (by decide))
  · exact @Spells.longSeparate _ (ascii "key-f") _ ⟨ascii "key-format", true, 102⟩ (by decide)
      (by decide) (by decide) rfl
  · exact @Spells.longSeparate _ (ascii "key") _ ⟨ascii "key", true, 107⟩ (by decide)
      (by decide) (by decide) rfl

theorem saltCliRunWithStreamsInternal_canonical_sample :
    saltCliRunWithStreamsInternal (ofArgv false 7
        (some (sampleArgv (.ofAscii "salt") (.ofAscii "hi") (.ofAscii "AAAA")))) false true =
      saltCliRunWithStreamsInternal (canonical true (.ofAscii "salt")
        (sampleOptions (.ofAscii "AAAA")) [.ofAscii "hi"]) false true :=
  saltCliRunWithStreamsInternal_canonical false true 7 _ _ _ false true
    (sampleArgv_spelled _ _ _ (by decide)) (by decide)

end Salt.CommandLine
