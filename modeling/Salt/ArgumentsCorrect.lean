import Salt.Ownership

set_option autoImplicit false

/-!
# What the options ask for

The option loop leaves the last value given for each option, up to the first
bad option. The checks behind it either accept the options or end with one
diagnostic, behind which the usage text may follow.
-/
namespace Salt.ArgumentsCorrect
open ByteStrings TracedState StreamFacts Framing Tracking ReportingCorrect Ownership

def keyArg : OptEvent → Option (Option TextRef)
  | .key v => some (some (.text v))
  | _ => none

def keyIdArg : OptEvent → Option (Option CString)
  | .keyId v => some (some v)
  | _ => none

def modeArg : OptEvent → Option OutputMode
  | .output v => outputModeOf v
  | _ => none

def formatArg : OptEvent → Option KeyFormat
  | .keyFormat v => keyFormatOf v
  | _ => none

def helpArg : OptEvent → Option Bool
  | .help => some true
  | _ => none

def versionArg : OptEvent → Option Bool
  | .version => some true
  | _ => none

def latest {α : Type} (f : OptEvent → Option α) (old : α) (events : List OptEvent) : α :=
  (events.filterMap f).getLast?.getD old

theorem latest_cons {α : Type} (f : OptEvent → Option α) (old : α) (event : OptEvent)
    (events : List OptEvent) :
    latest f old (event :: events) = latest f ((f event).getD old) events := by
  unfold latest
  cases hf : f event with
  | none => simp [hf]
  | some a => simp [hf, List.getLast?_cons]

def Valid : OptEvent → Bool
  | .output v => (outputModeOf v).isSome
  | .keyFormat v => (keyFormatOf v).isSome
  | .missingArgument _ | .unknown _ _ => false
  | _ => true

def asksText : OptEvent → Bool
  | .help | .version => true
  | _ => false

def withOptions (events : List OptEvent) (s : CliState) : CliState := { s with
  keyOption := latest keyArg s.keyOption events
  keyIdOption := latest keyIdArg s.keyIdOption events
  outputMode := latest modeArg s.outputMode events
  keyFormat := latest formatArg s.keyFormat events
  showHelp := latest helpArg s.showHelp events
  showVersion := latest versionArg s.showVersion events }

theorem withOptions_cons (event : OptEvent) (events : List OptEvent) (s : CliState) :
    withOptions (event :: events) s = withOptions events (withOptions [event] s) := by
  simp only [withOptions, latest_cons]
  rfl

theorem handleOption_valid {event : OptEvent} (h : Valid event = true) (s : CliState) :
    handleOption s event = .ok (withOptions [event] s) := by
  cases event with
  | output v =>
    obtain ⟨mode, hmode⟩ := Option.isSome_iff_exists.1 h
    simp [handleOption, withOptions, latest, modeArg, keyArg, keyIdArg, formatArg, helpArg,
      versionArg, hmode]
  | keyFormat v =>
    obtain ⟨format, hformat⟩ := Option.isSome_iff_exists.1 h
    simp [handleOption, withOptions, latest, modeArg, keyArg, keyIdArg, formatArg, helpArg,
      versionArg, hformat]
  | missingArgument optopt => exact Bool.noConfusion h
  | unknown optopt token => exact Bool.noConfusion h
  | _ => rfl

theorem handleOption_invalid {event : OptEvent} (h : Valid event = false) (s : CliState) :
    ∃ text, handleOption s event = .error text ∧ IsDiagnostic text := by
  cases event with
  | output v =>
    have hmode : outputModeOf v = none := by simpa [Valid] using h
    refine ⟨invalidOutputText v, by simp [handleOption, hmode],
      ascii "invalid output format '" ++ v.bytes ++ ascii "' (expected text|json)", ?_, .inl ?_⟩
    · simp [ascii]
    · simp [invalidOutputText, ascii]
  | keyFormat v =>
    have hformat : keyFormatOf v = none := by simpa [Valid] using h
    refine ⟨invalidKeyFormatText v, by simp [handleOption, hformat],
      ascii "invalid key format '" ++ v.bytes ++ ascii "' (expected auto|base64|json)", ?_, .inl ?_⟩
    · simp [ascii]
    · simp [invalidKeyFormatText, ascii]
  | missingArgument optopt =>
    refine ⟨missingArgumentText optopt, rfl, ascii "option requires an argument: -" ++ [optopt],
      by simp, .inl ?_⟩
    simp [missingArgumentText, ascii]
  | unknown optopt token =>
    refine ⟨invalidOptionText optopt token, rfl, ?_⟩
    unfold invalidOptionText
    split_ifs
    · exact ⟨ascii "invalid option: -" ++ [optopt], by simp, .inl (by simp [ascii])⟩
    · exact ⟨ascii "invalid option: " ++ token.bytes, by simp [ascii], .inl (by simp [ascii])⟩
  | _ => exact Bool.noConfusion h

section Loop
variable {w₀ w : World} {v : View}

/-- The option loop: every option is applied, or the first bad one is reported. -/
theorem handleOptions_applied (h : Tracks w₀ v w) (events : List OptEvent) :
    Ends (handleOptions events) w fun rc w' =>
      ((∀ e ∈ events, Valid e = true) ∧ rc = .ok ∧
        Tracks w₀ { v with state := withOptions events v.state } w') ∨
      ((∃ e ∈ events, Valid e = false) ∧ (rc = .errInput ∨ rc = .errIo) ∧
        ∃ text error err, IsDiagnostic text ∧
          Sent w₀ { v with state := withOptions (events.takeWhile Valid) v.state } text
            (rc = .errInput) w' error err) := by
  induction events generalizing v w with
  | nil => exact .ret (.inl ⟨by simp, rfl, h⟩)
  | cons event rest ih =>
    cases hvalid : Valid event with
    | true =>
      have hone : Ends (saltCliHandleOption event) w fun rc w' =>
          rc = .ok ∧ Tracks w₀ { v with state := withOptions [event] v.state } w' := by
        refine (getState_tracks h).bind fun s w₁ ⟨hs, h₁⟩ => ?_
        subst hs
        rw [handleOption_valid hvalid]
        exact (modifyState_tracks h₁ _).bind fun _ w₂ h₂ => .ret ⟨rfl, h₂⟩
      refine hone.bind fun rc w₁ ⟨hrc, h₁⟩ => ?_
      subst hrc
      refine (ih h₁).mono fun rc w₂ hend => ?_
      rw [List.takeWhile_cons, hvalid, if_pos rfl, withOptions_cons event rest,
        withOptions_cons event (rest.takeWhile Valid)]
      refine hend.imp (fun ⟨hall, hok⟩ => ⟨?_, hok⟩) fun ⟨⟨e, he, hbad⟩, hsent⟩ =>
        ⟨⟨e, List.mem_cons_of_mem _ he, hbad⟩, hsent⟩
      simpa [hvalid] using hall
    | false =>
      obtain ⟨text, herror, hdiag⟩ := handleOption_invalid hvalid v.state
      have hone : Ends (saltCliHandleOption event) w fun rc w' => (rc = .errInput ∨ rc = .errIo) ∧
          ∃ error err, Sent w₀ v text (rc = .errInput) w' error err := by
        refine (getState_tracks h).bind fun s w₁ ⟨hs, h₁⟩ => ?_
        subst hs
        rw [herror]
        exact saltCliReportStreamStatus_sent h₁ true .errInput text
      refine hone.bind fun rc w₁ ⟨hrc, error, err, hsent⟩ => ?_
      have hne : rc ≠ .ok := by rcases hrc with rfl | rfl <;> decide
      rw [if_pos hne, List.takeWhile_cons, hvalid, if_neg (by decide)]
      exact .ret (.inr ⟨⟨event, List.mem_cons_self, hvalid⟩, hrc, text, error, err, hdiag, hsent⟩)

end Loop

/-- One diagnostic is out, perhaps with the usage text behind it. -/
def Reported (program : CString) (s s' : OutStream) : Prop := ∃ text usage, IsDiagnostic text ∧
  (usage = [] ∨ usage = [usageText program.bytes]) ∧ Received s (text :: usage) s'

structure Rejected (program : CString) (err : OutStream) (undefined : Bool) (rc : SaltStatus)
    (w' : World) : Prop where
  ne_ok : rc ≠ .ok
  reported : err.Accepts → Reported program err w'.err
  tidy : Tidy w'.state w'.heap
  undefined : w'.undefined = undefined

theorem rejected_of_failed {err : OutStream} {undefined : Bool} {positionals : List Bytes}
    {rc : SaltStatus} {w' : World} (h : Failed err undefined positionals rc w')
    (program : CString) :
    Rejected program err undefined rc w' where
  ne_ok := h.ne_ok
  reported hacc := by
    obtain ⟨text, hdiag, hreceived⟩ := h.diagnosed hacc
    exact ⟨text, [], hdiag, .inl rfl, hreceived⟩
  tidy := h.tidy
  undefined := h.undefined

structure Admissible (inv : Invocation) (s : CliState) : Prop where
  key : ∃ key, s.keyOption = some (.text key) ∧ key.bytes ≠ []
  keyId : ∀ keyId, s.keyIdOption = some keyId → keyId.bytes.length ≤ saltMaxKeyIdLen
  positionals : inv.positionals.length ≤ 1
  sources : ¬ ((selectPositionals inv.positionals s).keyFromStdin = true ∧
    (selectPositionals inv.positionals s).plaintextFromStdin = true)

theorem keyIdTooLong_iff (s : CliState) :
    keyIdTooLong s = true ↔ ∃ keyId, s.keyIdOption = some keyId ∧
      saltMaxKeyIdLen < keyId.bytes.length := by
  unfold keyIdTooLong
  cases s.keyIdOption with
  | none => simp
  | some keyId =>
    have hlong (n : ℕ) : saltMaxKeyIdLen < min n (saltMaxKeyIdLen + 1) ↔ saltMaxKeyIdLen < n := by
      omega
    simp only [decide_eq_true_eq, hlong, Option.some.injEq, exists_eq_left']
    exact ⟨fun h => h.2, fun h => ⟨List.ne_nil_of_length_pos (by omega), h⟩⟩

section Checks
variable {w₀ w : World} {v : View} {inv : Invocation}

/-- A check that failed: reported, with the flags of the options as they were. -/
structure Declined (inv : Invocation) (v : View) (rc : SaltStatus) (w' : World) : Prop where
  rejected : Rejected inv.program v.err v.undefined rc w'
  showHelp : w'.state.showHelp = v.state.showHelp
  showVersion : w'.state.showVersion = v.state.showVersion

theorem report_declined (h : Tracks w₀ v w) {text : Bytes} (htext : IsDiagnostic text)
    (ht : Tidy v.state v.heap) :
    Ends (saltCliReportStreamStatus .err true .errInput text) w (Declined inv v) := by
  refine (saltCliReportStreamStatus_sent h true .errInput text).mono
    fun rc w' ⟨hrc, error, err, hsent⟩ => ?_
  refine ⟨rejected_of_failed (Sent.failed hsent hrc (by decide) htext ht) _, ?_, ?_⟩
  · rw [hsent.tracks.state]
    rfl
  · rw [hsent.tracks.state]
    rfl

theorem reportWithUsage_declined (h : Tracks w₀ v w) {text : Bytes}
    (htext : IsDiagnostic text) (ht : Tidy v.state v.heap) :
    Ends (reportWithUsage inv.program text) w (Declined inv v) := by
  refine (saltCliReportStreamStatus_sent h true .errInput text).bind
    fun rc w₁ ⟨hrc, error, err, hsent⟩ => .ite (fun hio => ?_) fun hne => ?_
  · refine .ret ⟨rejected_of_failed (Sent.failed hsent hrc (by decide) htext ht) _, ?_, ?_⟩
    · rw [hsent.tracks.state]
      rfl
    · rw [hsent.tracks.state]
      rfl
  obtain rfl : rc = .errInput := hrc.resolve_right hne
  refine (saltCliWriteStream_sent hsent.tracks true _ (usageText inv.program.bytes)).bind
    fun rc₂ w₂ ⟨hrc₂, error₂, err₂, hsent₂⟩ => ?_
  have hstate : w₂.state = { v.state with error := error₂ } := hsent₂.tracks.state
  have hend {a : SaltStatus} (ha : a ≠ .ok) : Declined inv v a w₂ := by
    refine ⟨⟨ha, fun hacc => ?_, ?_, hsent₂.tracks.undefined⟩, ?_, ?_⟩
    · obtain ⟨-, -, hreceived⟩ := hsent.accepted hacc
      obtain ⟨-, -, hreceived₂⟩ := hsent₂.accepted (hreceived.accepts hacc)
      rw [hsent₂.tracks.err]
      exact ⟨text, [usageText inv.program.bytes], htext, .inr rfl, hreceived.trans hreceived₂⟩
    · rw [hstate, hsent₂.tracks.heap]
      exact ht.withError (hsent₂.length.trans hsent.length)
    · rw [hstate]
    · rw [hstate]
  refine .ite (fun _ => .ret (hend (by decide))) fun hne₂ => .ret (hend hne₂)

theorem reportWithUsage_ne_ok (program : CString) (text : Bytes) (w : World) :
    Ends (reportWithUsage program text) w fun rc _ => rc ≠ .ok := by
  refine (saltCliReportStreamStatus_ne_ok w true (by decide) text).bind fun rc w₁ hrc =>
    .ite (fun _ => hrc) fun _ => ?_
  refine Ends.then fun rc w₂ => .ite (fun _ => ?_) fun hne => hne
  exact SaltStatus.noConfusion

/-- The checks accept the options just when they are admissible. -/
theorem checkOptions_checked (h : Tracks w₀ v w) (ht : Tidy v.state v.heap)
    (hkey : ∀ ref, v.state.keyOption = some ref → ∃ key, ref = .text key) :
    Ends (checkOptions inv) w fun rc w' =>
      (rc = .ok ∧ Admissible inv v.state ∧
        Tracks w₀ { v with state := selectPositionals inv.positionals v.state } w') ∨
      (Declined inv v rc w' ∧ ¬ Admissible inv v.state) := by
  refine (getState_tracks h).bind fun s w₁ ⟨hs, h₁⟩ => ?_
  subst hs
  refine .ite (fun hnone => ?_) fun hsome => ?_
  · refine (reportWithUsage_declined h₁ ⟨ascii "--key/-k is required", by decide,
      .inl (by decide)⟩ ht).mono fun rc w₂ hd => .inr ⟨hd, fun hadm => ?_⟩
    obtain ⟨key, hkey, -⟩ := hadm.key
    simp [hkey] at hnone
  obtain ⟨ref, href⟩ : ∃ ref, v.state.keyOption = some ref := by
    cases hopt : v.state.keyOption with
    | none => simp [hopt] at hsome
    | some ref => exact ⟨ref, rfl⟩
  obtain ⟨key, rfl⟩ := hkey ref href
  have his (bytes : Bytes) : keyOptionIs v.state bytes = true ↔ key.bytes = bytes := by
    simp [keyOptionIs, href]
  refine .ite (fun hempty => ?_) fun hne => ?_
  · refine (report_declined h₁ ⟨ascii "--key/-k value must not be empty", by decide,
      .inl (by decide)⟩ ht).mono fun rc w₂ hd => .inr ⟨hd, fun hadm => ?_⟩
    obtain ⟨key', hkey', hne⟩ := hadm.key
    obtain rfl : key = key' := by simpa [href] using hkey'
    exact hne ((his []).1 hempty)
  refine .ite (fun hlong => ?_) fun hshort => ?_
  · refine (report_declined h₁ ⟨ascii "--key-id/-i exceeds maximum length (" ++
      decimal saltMaxKeyIdLen ++ ascii " bytes)", by decide, .inl (by decide)⟩ ht).mono
      fun rc w₂ hd => .inr ⟨hd, fun hadm => ?_⟩
    obtain ⟨keyId, hid, hlt⟩ := (keyIdTooLong_iff _).1 hlong
    have := hadm.keyId keyId hid
    omega
  refine .ite (fun hmany => ?_) fun hfew => ?_
  · refine (modifyState_tracks h₁ _).bind fun _ w₂ h₂ => ?_
    refine (reportWithUsage_declined h₂ ⟨ascii "too many positional arguments", by decide,
      .inl (by decide)⟩ (ht.congr (funext fun o => by cases o <;> rfl)
        (fun o _ => by cases o <;> rfl) rfl rfl rfl)).mono
      fun rc w₃ hd => .inr ⟨⟨hd.rejected, hd.showHelp, hd.showVersion⟩, fun hadm => ?_⟩
    have := hadm.positionals
    omega
  refine (modifyState_tracks h₁ _).bind fun _ w₂ h₂ => ?_
  refine (getState_tracks h₂).bind fun s w₃ ⟨hs, h₃⟩ => ?_
  subst hs
  refine .ite (fun hclash => ?_) fun hclear => ?_
  · refine (report_declined h₃ ⟨ascii "key and plaintext cannot both be read from stdin",
      by decide, .inl (by decide)⟩ (ht.congr (funext fun o => by cases o <;> rfl)
        (fun o _ => by cases o <;> rfl) rfl rfl rfl)).mono
      fun rc w₄ hd => .inr ⟨⟨hd.rejected, hd.showHelp, hd.showVersion⟩, fun hadm => ?_⟩
    exact hadm.sources (by simpa using hclash)
  · refine .ret (.inl ⟨rfl, ⟨⟨key, href, fun hnil => hne ((his []).2 hnil)⟩, fun keyId hid => ?_,
      not_lt.1 hfew, by simpa using hclear⟩, h₃⟩)
    by_contra hlt
    exact hshort ((keyIdTooLong_iff _).2 ⟨keyId, hid, not_le.1 hlt⟩)

end Checks

end Salt.ArgumentsCorrect
