import Salt.EndToEnd
import Salt.HandlerSpan

set_option autoImplicit false

/-!
# Which signals a run loses

A signal that arrives behind the clearing of the flag is seen by the poll that
follows the seal. One that arrives between the installation of the handlers
and that step is forgotten.
-/
namespace Salt.Interruption
open ByteStrings TracedState Sealing SealingCorrect StreamFacts Framing Tracking ReportingCorrect
  ArgumentsCorrect PipelineCorrect RunCorrect HandlerSpan EndToEnd

/-- The flag was clear at the poll whose clock is recorded. -/
def Polled (w w' : World) : Prop :=
  ∃ u, Advances w u ∧ u.interrupted = false ∧ w'.sealPollAt = some u.clock

section Polls
variable {w w₁ w₂ : World}

theorem Polled.after (ha : Advances w w₁) (h : Polled w₁ w₂) : Polled w w₂ := by
  obtain ⟨u, hu, hclear, hat⟩ := h
  exact ⟨u, ha.trans hu, hclear, hat⟩

theorem Polled.kept (h : Polled w w₁) (hat : w₂.sealPollAt = w₁.sealPollAt) : Polled w w₂ := by
  obtain ⟨u, hu, hclear, hpoll⟩ := h
  exact ⟨u, hu, hclear, hat.trans hpoll⟩

/-- Up to a poll that found the flag clear, no signal reached a handler. -/
theorem Polled.no_signal (h : Polled w w₁) {t : ℕ} {s : Signal}
    (hdisp : w.disposition s = .saltHandler) (hle : w.clock ≤ t)
    (hlt : ∀ p, w₁.sealPollAt = some p → t < p) : w.env.signals t s = false := by
  obtain ⟨u, hu, hclear, hat⟩ := h
  by_contra harr
  have hseen := hu.seen t s hle (hlt u.clock hat) (by simpa using harr) hdisp
  exact absurd (hclear.symm.trans hseen) (by decide)

theorem internal_advances {α : Type} {m : Cli α} (hm : Internal m) (w : World) :
    Ends m w fun _ w' => Advances w w' :=
  hm.advances w

theorem saltCliCheckInterrupted_clear (w : World) :
    Ends saltCliCheckInterrupted w fun rc w' => rc = .ok → w'.interrupted = false := by
  refine Ends.bind (R := fun interrupted (w₁ : World) => w₁.interrupted = interrupted) rfl ?_
  rintro _ w₁ rfl
  refine .ite (fun _ hok => SaltStatus.noConfusion hok) fun hclear => .ret fun _ => ?_
  simpa using hclear

theorem checkSealed_polled (w : World) :
    Ends checkSealed w fun rc w' => rc = .ok → Polled w w' := by
  have hadv : Ends saltCliCheckInterrupted w fun _ w' => Advances w w' :=
    saltCliCheckInterrupted_internal.advances w
  refine (hadv.and (saltCliCheckInterrupted_clear w)).bind fun rc w₁ ⟨hadv, hclear⟩ => ?_
  refine Ends.bind (R := fun _ (w₂ : World) => w₂ = { w₁ with sealPollAt := some w₁.clock }) rfl ?_
  rintro _ _ rfl
  refine .ite (fun hrc => (saltCliReportStateError_ne_ok _ hrc).mono fun _ _ hne hok =>
    absurd hok hne) fun hrc => ?_
  refine Ends.bind_read rfl ?_
  refine .ite (fun _ => (saltCliReportStreamStatus_ne_ok _ true (by decide) _).mono fun _ _ hne hok =>
    absurd hok hne) fun _ => .ret fun _ => ⟨w₁, hadv, hclear (not_not.1 hrc), rfl⟩

theorem sealIntoOutput_polled (w : World) (output outputSize : ℕ) :
    Ends (sealIntoOutput output outputSize) w fun rc w' => rc = .ok → Polled w w' := by
  refine (internal_advances (modifyState_internal _) w).bind fun _ w₁ h₁ => ?_
  refine (internal_advances (sodiumMlock_internal _) w₁).bind fun _ w₂ h₂ => ?_
  refine (internal_advances saltCliSealImpl_internal w₂).bind fun rc w₃ h₃ => ?_
  refine .ite (fun hrc => (saltCliReportStateError_ne_ok _ hrc).mono fun _ _ hne hok =>
    absurd hok hne) fun _ => ?_
  exact (checkSealed_polled w₃).mono
    fun rc w₄ hpolled hok => (hpolled hok).after (h₁.trans (h₂.trans h₃))

theorem saltCliPrepareOutput_polled (w : World) :
    Ends saltCliPrepareOutput w fun rc w' => rc = .ok → Polled w w' := by
  refine (internal_advances (modifyState_internal _) w).bind fun _ w₁ h₁ => ?_
  refine Ends.bind (R := fun _ w₂ => w₁ = w₂) rfl ?_
  rintro size _ rfl
  refine .ite (fun _ => (saltCliReportStreamStatus_ne_ok _ true (by decide) _).mono
    fun _ _ hne hok => absurd hok hne) fun _ => ?_
  refine (internal_advances (saltCliAllocImpl_internal size) w₁).bind fun output w₂ h₂ => ?_
  cases output with
  | none =>
    exact (saltCliReportStreamStatus_ne_ok _ true (by decide) _).mono
      fun _ _ hne hok => absurd hok hne
  | some output =>
    exact (sealIntoOutput_polled w₂ output size).mono
      fun rc w₃ hpolled hok => (hpolled hok).after (h₁.trans h₂)

theorem encryptStages_polled (w : World) :
    Ends encryptStages w fun rc w' => (rc ≠ .ok ∧ w'.out = w.out) ∨ Polled w w' := by
  have hstage {m : Cli SaltStatus} (hm : Internal m) (w : World) :
    Ends m w fun _ w' => Advances w w' ∧ w'.out = w.out := ⟨hm.advances w, hm.quiet.out_eq w⟩
  refine (hstage saltCliInputLoadKeyInput_internal w).bind fun rc w₁ ⟨h₁, hout₁⟩ =>
    .ite (fun hrc => .ret (.inl ⟨hrc, hout₁⟩)) fun _ => ?_
  refine (hstage saltCliInputLoadPlaintext_internal w₁).bind fun rc w₂ ⟨h₂, hout₂⟩ =>
    .ite (fun hrc => .ret (.inl ⟨hrc, hout₂.trans hout₁⟩)) fun _ => ?_
  refine ((hstage saltCliPrepareOutput_internal w₂).and (saltCliPrepareOutput_polled w₂)).bind
    fun rc w₃ ⟨⟨_, hout₃⟩, hpolled⟩ =>
      .ite (fun hrc => .ret (.inl ⟨hrc, hout₃.trans (hout₂.trans hout₁)⟩)) fun hrc => ?_
  have hemit : Ends emitStage w₃ fun _ w' => w'.sealPollAt = w₃.sealPollAt :=
    (emitStage_settled w₃).1.sealPollAt
  exact hemit.mono fun _ w₄ hat => .inr (((hpolled (not_not.1 hrc)).kept hat).after (h₁.trans h₂))

end Polls

section Run
variable {inv : Invocation} {w : World}

theorem finishArguments_fails (s : CliState) (rc : SaltStatus) (w : World) :
    Ends (finishArguments s rc) w fun a w' => a = rc ∧ w'.out = w.out := by
  have hout : Ends (finishArguments s rc) w fun _ w' => w'.out = w.out :=
    (finishArguments_internal s rc).quiet.out_eq w
  have hvalue : Ends (finishArguments s rc) w fun a _ => a = rc :=
    .ite (fun _ => Ends.bind (R := fun _ _ => True) trivial fun _ _ _ => .ret rfl) fun _ => .ret rfl
  exact hvalue.and hout

theorem runArguments_polled (hs : w.state = initState) (hheap : ∀ b ∈ w.heap, b.Disposed)
    (hasks : inv.events.any asksText = false) :
    Ends (runArguments inv) w fun rc w' => (rc ≠ .ok ∧ w'.out = w.out) ∨ Polled w w' := by
  have hadv : Ends (saltCliArgsParseArguments inv) w fun _ w' => Advances w w' :=
    (saltCliArgsParseArguments_steady inv w).1
  refine (hadv.and (saltCliArgsParseArguments_ends (Tracks.refl w) hs hheap)).bind
    fun rc w₁ ⟨hadv, hparse⟩ => ?_
  refine Ends.bind_read rfl ?_
  have hfails (hrc : rc ≠ .ok) (hout : w₁.out = w.out) :
      Ends (if rc ≠ .ok || w₁.state.showHelp || w₁.state.showVersion
        then finishArguments w₁.state rc else encryptStages) w₁
        fun rc w' => (rc ≠ .ok ∧ w'.out = w.out) ∨ Polled w w' := by
    rw [decide_eq_true hrc, Bool.true_or, Bool.true_or, if_pos rfl]
    exact (finishArguments_fails w₁.state rc w₁).mono
      fun a w₂ ⟨ha, hout₂⟩ => .inl ⟨ha ▸ hrc, hout₂.trans hout⟩
  cases hparse with
  | misused event _ hbad hrc text error err hdiag hsent hout₁ =>
    exact hfails (by rcases hrc with rfl | rfl <;> decide) hout₁
  | informed _ hinformed _ => exact absurd (hasks.symm.trans hinformed) (by decide)
  | declined _ _ _ hd hout₁ => exact hfails hd.rejected.ne_ok hout₁
  | accepted _ _ _ hrc h₁ hout₁ =>
    subst hrc
    have hflags := withOptions_asks inv.events initState
    rw [show (initState.showHelp || initState.showVersion) = false from rfl, Bool.false_or, hasks]
      at hflags
    have hstate : (w₁.state.showHelp || w₁.state.showVersion) = false := by
      rw [h₁.state]
      exact hflags
    rw [Bool.or_assoc, hstate, Bool.or_false, if_neg (by simp)]
    refine (encryptStages_polled w₁).mono fun rc w₂ hend => ?_
    rw [hout₁] at hend
    exact hend.imp_right fun hpolled => hpolled.after hadv

/-- The clock of the step that clears the flag: three locks, `sigemptyset` and two `sigaction`
come before it. -/
def clearingClock (w : World) : ℕ := w.clock + 6

theorem modifyState_clock (f : CliState → CliState) {w : World} {t : ℕ} (h : w.clock = t) :
    Ends (modifyState f) w fun _ w' => w'.clock = t := h

theorem sodiumMlock_clock (len : ℕ) {w : World} {t : ℕ} (h : w.clock = t) :
    Ends (sodiumMlock len) w fun _ w' => w'.clock = t + 1 := congrArg (· + 1) h

theorem saltCliStateInit_clock (w : World) : (saltCliStateInit w).final.clock = w.clock + 3 := by
  change Ends saltCliStateInit w fun _ w' => w'.clock = w.clock + 3
  refine (modifyState_clock _ rfl).bind fun _ _ h₁ => (modifyState_clock _ h₁).bind fun _ _ h₂ => ?_
  refine (sodiumMlock_clock _ h₂).bind fun _ _ h₃ => (sodiumMlock_clock _ h₃).bind fun _ _ h₄ => ?_
  exact (sodiumMlock_clock _ h₄).bind fun _ _ h₅ => modifyState_clock _ h₅

/-- Both handlers of a managed run can be installed: the outcomes of its fourth to sixth call. -/
structure Installs (w : World) : Prop where
  sigemptyset : w.env.sigemptyset (w.clock + 3) = 0
  sigint : w.env.sigaction (w.clock + 4) = 0
  sigterm : w.env.sigaction (w.clock + 5) = 0

theorem installable_iff (w : World) : Installable (saltCliStateInit w).final ↔ Installs w := by
  have henv := (saltCliStateInit_internal.advances w).env
  have hclock := saltCliStateInit_clock w
  constructor
  · rintro ⟨hempty, hint, hterm⟩
    rw [henv, hclock] at hempty hint hterm
    exact ⟨hempty, hint, hterm⟩
  · rintro ⟨hempty, hint, hterm⟩
    refine ⟨?_, ?_, ?_⟩ <;> rw [henv, hclock]
    exacts [hempty, hint, hterm]

theorem installStage_ok_iff (w : World) :
    (installStage true (saltCliStateInit w).final).value = .ok ↔ Installs w := by
  rw [← installable_iff]
  obtain ⟨-, ⟨hok, h, -⟩ | ⟨hne, h, -⟩⟩ := installStage_installs (saltCliStateInit w).final
  · exact iff_of_true hok h
  · exact iff_of_false hne h

theorem saltCliResetInterrupted_installed {w₁ : World} (h : HandlersInForce w w₁) :
    Ends saltCliResetInterrupted w₁ fun _ w' => HandlersInForce w w' ∧
      w'.clock = w₁.clock + 1 ∧ w'.installedAt = w₁.installedAt ∧ w'.env = w₁.env :=
  ⟨⟨h.sigint, h.sigterm, h.savedSigint, h.savedSigterm⟩, rfl, rfl, rfl⟩

theorem resetWorld_installed
    (hrc : (installStage true (saltCliStateInit w).final).value = .ok) :
    HandlersInForce w (resetWorld true w) ∧ (resetWorld true w).clock = clearingClock w + 1 ∧
      (resetWorld true w).installedAt = some (clearingClock w) ∧ (resetWorld true w).env = w.env := by
  have hinit := saltCliStateInit_internal.advances w
  have hclock₀ := saltCliStateInit_clock w
  obtain ⟨henv, h⟩ := installStage_installs (saltCliStateInit w).final
  obtain ⟨-, -, hforce, hclock, hat⟩ := h.resolve_right fun h => h.1 hrc
  rw [hclock₀] at hclock hat
  have hforce₀ : HandlersInForce w (installStage true (saltCliStateInit w).final).final :=
    ⟨hforce.sigint, hforce.sigterm, hinit.sigint ▸ hforce.savedSigint,
      hinit.sigterm ▸ hforce.savedSigterm⟩
  obtain ⟨hforce', hclock', hat', henv'⟩ := saltCliResetInterrupted_installed hforce₀
  rw [hclock] at hclock'
  exact ⟨hforce', hclock', hat'.trans hat, henv'.trans (henv.trans hinit.env)⟩

/-- A managed run up to its cleanup: it fails and writes nothing, or no signal arrived between
the clearing of the flag and the poll behind the seal. -/
theorem runStages_polled (hstart : Starts inv w) (hasks : inv.events.any asksText = false) :
    Ends (runStages inv true) (saltCliStateInit w).final fun rc w' =>
      (rc ≠ .ok ∧ w'.out = w.out) ∨
        (Installs w ∧ w'.installedAt = some (clearingClock w) ∧
          ∀ t s, clearingClock w < t → (∀ p, w'.sealPollAt = some p → t < p) →
            w.env.signals t s = false) := by
  have hrun : Ends (installStage true) (saltCliStateInit w).final fun rc w' =>
    rc = (installStage true (saltCliStateInit w).final).value ∧
      w' = (installStage true (saltCliStateInit w).final).final := ⟨rfl, rfl⟩
  refine hrun.bind fun rc w₁ ⟨hrc, hw₁⟩ => .ite (fun hne => ?_) fun hok => ?_
  · exact .ret (.inl ⟨hne, hw₁ ▸ installStage_out true w⟩)
  rw [not_not.1 hok] at hrc
  have hreset := resetWorld_starts hstart hrc.symm
  obtain ⟨hforce, hclock, hat, henv⟩ := resetWorld_installed hrc.symm
  refine Ends.bind (R := fun _ w' => w' = resetWorld true w) (by rw [hw₁]; rfl) ?_
  rintro _ _ rfl
  have hstate : (resetWorld true w).state = initState := congrArg View.state hreset.view
  have hheap : (resetWorld true w).heap = w.heap := congrArg View.heap hreset.view
  have hadv : Ends (runArguments inv) (resetWorld true w) fun _ w' => Advances (resetWorld true w) w' :=
    (runArguments_steady inv _).1
  refine (hadv.and (runArguments_polled hstate (hheap ▸ hstart.heap) hasks)).mono
    fun rc w₂ ⟨hadv, hend⟩ => ?_
  rw [hreset.out] at hend
  have hinstalls := (installStage_ok_iff w).1 hrc.symm
  refine hend.imp_right fun hpolled => ⟨hinstalls, hadv.installedAt.trans hat, fun t s hlt hbefore => ?_⟩
  rw [← henv]
  exact hpolled.no_signal (hforce.disposition s) (hclock ▸ hlt) hbefore

/-- With no signal in the step that clears the flag behind the handlers, a signal behind the
installation of the handlers and in front of the poll that follows the seal makes the run fail without
output. -/
theorem saltCliRunWithStreamsInternal_interrupted (inv : Invocation) (nullStream : Bool) (w : World)
    (hstart : Starts inv w) (hasks : inv.events.any asksText = false)
    (hgap : saltCliHasValidArgvShape inv = true → nullStream = false → Installs w →
      ∀ s, w.env.signals (clearingClock w) s = false) :
    let r := saltCliRunWithStreamsInternal inv nullStream true w
    ∀ i t s, r.final.installedAt = some i → i ≤ t →
      (∀ p, r.final.sealPollAt = some p → t < p) → w.env.signals t s = true →
      r.value ≠ .ok ∧ r.final.out = w.out := by
  change Ends (saltCliRunWithStreamsInternal inv nullStream true) w fun rc w' =>
    ∀ i t s, w'.installedAt = some i → i ≤ t → (∀ p, w'.sealPollAt = some p → t < p) →
      w.env.signals t s = true → rc ≠ .ok ∧ w'.out = w.out
  refine .ite (fun _ => .ret fun _ _ _ _ _ _ _ => ⟨by decide, rfl⟩) fun hargs => ?_
  rw [Bool.or_eq_true, not_or, Bool.not_eq_true, Bool.not_eq_true, Bool.not_eq_false'] at hargs
  refine Ends.bind (R := fun _ w' => w' = (saltCliStateInit w).final) rfl ?_
  rintro _ _ rfl
  refine (runStages_polled hstart hasks).bind fun rc w₁ hend => ?_
  have hout : Ends (cleanupRun true) w₁ fun _ w' => w'.out = w₁.out :=
    (cleanupRun_quiet true).out_eq w₁
  refine (hout.and (cleanupRun_marks w₁)).bind fun _ w₂ ⟨hout, hi, hp⟩ => .ret ?_
  intro i t s hat hle hlt harr
  rcases hend with ⟨hrc, hout₁⟩ | ⟨hinstalls, hat₁, hquiet⟩
  · exact ⟨hrc, hout.trans hout₁⟩
  exfalso
  obtain rfl : clearingClock w = i := Option.some.inj ((hat₁.symm.trans hi.symm).trans hat)
  rcases Nat.eq_or_lt_of_le hle with rfl | hlt'
  · exact absurd (harr.symm.trans (hgap hargs.1 hargs.2 hinstalls s)) (by decide)
  · have hnone := hquiet t s hlt' fun p hat₂ => hlt p (hp.trans hat₂)
    exact absurd (harr.symm.trans hnone) (by decide)

end Run

def signalledWorld (arrival : ℕ) : World := { sampleWorld with
  env := { calmEnv referenceSodium with
    signals := fun t s => decide (t = arrival) && decide (s = .sigint) } }

theorem signalledWorld_starts (arrival : ℕ) : Starts sampleInvocation (signalledWorld arrival) :=
  ⟨rfl, fun _ hb => absurd hb List.not_mem_nil⟩

theorem saltCliRunWithStreamsInternal_interrupted_sample :
    let r := saltCliRunWithStreamsInternal sampleInvocation false true (signalledWorld 10)
    r.value ≠ .ok ∧ r.final.out = (signalledWorld 10).out := by
  intro r
  have hrun : r.final.installedAt = some 6 ∧ r.final.sealPollAt = none := by decide +kernel
  refine saltCliRunWithStreamsInternal_interrupted sampleInvocation false (signalledWorld 10)
    (signalledWorld_starts 10) (by decide) (fun _ _ _ s => ?_) 6 10 .sigint hrun.1 (by decide)
    (fun p hp => ?_) (by decide)
  · cases s <;> decide
  · rw [hrun.2] at hp
    cases hp

/-- A signal in the step that clears the flag is forgotten: the run succeeds and writes. -/
theorem saltCliRunWithStreamsInternal_forgets :
    let r := saltCliRunWithStreamsInternal sampleInvocation false true (signalledWorld 6)
    (signalledWorld 6).env.signals 6 .sigint = true ∧ r.final.installedAt = some 6 ∧
      r.final.sealPollAt = some 18 ∧ r.value = .ok ∧ r.final.out.delivered ≠ [] := by
  decide +kernel

end Salt.Interruption
