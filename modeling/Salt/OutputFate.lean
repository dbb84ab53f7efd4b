import Salt.RunCorrect

set_option autoImplicit false

/-!
# The output does not depend on how it fares

Up to the first write, a run does not look at the output stream; so the text it
is about to give out is the same for every output stream.
-/
namespace Salt.OutputFate
open ByteStrings TracedState StreamFacts Framing Tracking ArgumentsCorrect EmissionCorrect
  PipelineCorrect RunCorrect

/-- A stream that took a beginning of a text, all of it if nothing failed. -/
structure Gives (text : Bytes) (s s' : OutStream) : Prop where
  taken : ∃ n, accepted s' = accepted s ++ text.take n
  whole : s.Accepts → s.errorFlag = false → s'.delivered = accepted s ++ text

/-- From this world the program does not touch the output stream, whatever stream it is. -/
def Untouched {α : Type} (m : Cli α) (w : World) : Prop :=
  ∀ o, (m (setOut o w)).value = (m w).value ∧ (m (setOut o w)).final = setOut o (m w).final

/-- From this world the program gives one text to any output stream, or nothing. -/
def Fated (m : Cli SaltStatus) (w : World) : Prop :=
  Untouched m w ∨ ∃ text, ∀ o, Gives text o (m (setOut o w)).final.out

section Fates
variable {α : Type} {m : Cli α} {n : Cli SaltStatus} {f : α → Cli SaltStatus} {w : World}

theorem untouched_of_quiet (hm : Quiet m) (w : World) : Untouched m w := fun o => hm o w

theorem Untouched.bind {β : Type} {g : α → Cli β} (hm : Untouched m w)
    (hg : Untouched (g (m w).value) (m w).final) : Untouched (m >>= g) w := by
  intro o
  obtain ⟨hv, hs⟩ := hm o
  simp only [bind_value, bind_final, hv, hs]
  exact hg o

theorem Fated.bind (hm : Untouched m w) (hf : Fated (f (m w).value) (m w).final) :
    Fated (m >>= f) w := by
  refine hf.imp (fun hsame o => ?_) fun ⟨text, htext⟩ => ⟨text, fun o => ?_⟩
  · obtain ⟨hv, hs⟩ := hm o
    simp only [bind_value, bind_final, hv, hs]
    exact hsame o
  · obtain ⟨hv, hs⟩ := hm o
    simp only [bind_final, hv, hs]
    exact htext o

theorem Fated.quiet_bind (hm : Quiet m) (hf : ∀ a w, Fated (f a) w) : Fated (m >>= f) w :=
  .bind (fun o => hm o w) (hf _ _)

theorem Fated.bind_quiet {g : SaltStatus → Cli SaltStatus} (hn : Fated n w)
    (hg : ∀ a, Quiet (g a)) : Fated (n >>= g) w := by
  refine hn.imp (fun hsame o => ?_) fun ⟨text, htext⟩ => ⟨text, fun o => ?_⟩
  · obtain ⟨hv, hs⟩ := hsame o
    simp only [bind_value, bind_final, hv, hs]
    exact hg _ o _
  · rw [bind_final, (hg _).out_eq]
    exact htext o

theorem Fated.ite {c : Prop} [Decidable c] {n' : Cli SaltStatus} (h : Fated n w)
    (h' : Fated n' w) : Fated (if c then n else n') w := by
  split_ifs
  · exact h
  · exact h'

theorem fated_of_quiet (hn : Quiet n) (w : World) : Fated n w := .inl fun o => hn o w

end Fates

theorem fated_of_delivered {n : Cli SaltStatus} {text : Bytes} {w : World}
    (h : ∀ w, Ends n w (Delivered w (view w) w.out text)) : Fated n w := by
  refine .inr ⟨text, fun o => ?_⟩
  have hd := h (setOut o w)
  exact ⟨hd.taken, fun hacc hflag => (hd.whole (hd.accepts hacc hflag)).1⟩

theorem emitError_quiet (message : Bytes) : Quiet (emitError message) :=
  .bind (modifyState_internal _).quiet fun _ => .ret _

theorem saltCliEmitOutput_fated (mode : OutputMode) (value : CString) (keyId : Option CString)
    (w : World) : Fated (saltCliEmitOutput mode value keyId) w := by
  refine .ite ?_ ?_
  · exact fated_of_delivered fun w => (cliStreamWrite_writes _).delivered (Tracks.refl w)
  · cases keyId with
    | none => exact fated_of_quiet (emitError_quiet _) w
    | some keyId =>
      refine .ite (fated_of_quiet (emitError_quiet _) w) (.ite (fated_of_quiet (emitError_quiet _) w) ?_)
      exact fated_of_delivered fun w => (jsonRecord_writes value keyId).delivered (Tracks.refl w)

theorem emitStage_fated (w : World) : Fated emitStage w := by
  refine .quiet_bind getState_internal.quiet fun s w => ?_
  refine .quiet_bind (Internal.read fun _ _ => rfl).quiet fun value w => ?_
  refine (saltCliEmitOutput_fated s.outputMode value s.effectiveKeyId w).bind_quiet fun rc => ?_
  exact .ite (reportOrIo_internal rc).quiet (.ret _)

theorem encryptStages_fated (w : World) : Fated encryptStages w := by
  refine .quiet_bind saltCliInputLoadKeyInput_internal.quiet fun rc w => ?_
  refine .ite (fated_of_quiet (.ret _) w) (.quiet_bind saltCliInputLoadPlaintext_internal.quiet
    fun rc w => ?_)
  refine .ite (fated_of_quiet (.ret _) w) (.quiet_bind saltCliPrepareOutput_internal.quiet
    fun rc w => ?_)
  exact .ite (fated_of_quiet (.ret _) w) (emitStage_fated w)

section Arguments
variable {inv : Invocation} {w : World}

theorem dispatchOptions_informed (inv : Invocation)
    (hasks : (w.state.showHelp || w.state.showVersion) = true) :
    ∃ text, ∀ o, Ends (dispatchOptions inv) (setOut o w) (Delivered (setOut o w) (view w) o text) := by
  cases hhelp : w.state.showHelp with
  | true =>
    refine ⟨usageText inv.program.bytes, fun o => ?_⟩
    refine Ends.bind_read (a := w.state) rfl ?_
    rw [if_pos hhelp]
    exact saltCliWriteStream_delivered (Tracks.refl (setOut o w)) (by decide) _
  | false =>
    rw [hhelp, Bool.false_or] at hasks
    refine ⟨versionText w.env.version, fun o => ?_⟩
    refine Ends.bind_read (a := w.state) rfl ?_
    rw [hhelp, if_neg (by decide), if_pos hasks]
    exact printVersion_delivered (Tracks.refl (setOut o w))

theorem dispatchOptions_untouched (hasks : (w.state.showHelp || w.state.showVersion) = false) :
    Untouched (dispatchOptions inv) w := by
  rw [Bool.or_eq_false_iff] at hasks
  refine Untouched.bind (untouched_of_quiet getState_internal.quiet w) ?_
  change Untouched (if w.state.showHelp then _ else if w.state.showVersion then _ else _) w
  rw [hasks.1, hasks.2, if_neg (by decide), if_neg (by decide)]
  exact untouched_of_quiet (checkOptions_internal inv).quiet w

theorem afterArguments_fated (rc : SaltStatus) (w : World) : Fated (do
    let s ← getState
    if rc ≠ .ok || s.showHelp || s.showVersion then finishArguments s rc else encryptStages) w :=
  .quiet_bind getState_internal.quiet fun s w =>
    .ite (fated_of_quiet (finishArguments_internal s rc).quiet w) (encryptStages_fated w)

theorem runArguments_fated (inv : Invocation) (w : World) : Fated (runArguments inv) w := by
  have hquiet : Quiet (handleOptions inv.events) := (handleOptions_internal inv.events).quiet
  obtain ⟨w₁, hw₁⟩ : ∃ w₁, w₁ = (handleOptions inv.events w).final := ⟨_, rfl⟩
  by_cases hinformed : (handleOptions inv.events w).value = .ok ∧
    (w₁.state.showHelp || w₁.state.showVersion) = true
  · obtain ⟨hok, hasks⟩ := hinformed
    obtain ⟨text, htext⟩ := dispatchOptions_informed inv hasks
    refine .inr ⟨text, fun o => ?_⟩
    change Ends (runArguments inv) (setOut o w) fun _ w' => Gives text o w'.out
    refine Ends.bind (R := fun rc w' => Delivered (setOut o w₁) (view w₁) o text rc w') ?_ ?_
    · refine Ends.bind (R := fun rc w' => rc = .ok ∧ w' = setOut o w₁) ?_ ?_
      · rw [hw₁]
        exact ⟨(hquiet o w).1.trans hok, (hquiet o w).2⟩
      · rintro _ _ ⟨rfl, rfl⟩
        exact htext o
    · intro rc w₂ hd
      obtain ⟨error, hm⟩ := hd.minded
      refine Ends.bind_read rfl ?_
      have hflags : (w₂.state.showHelp || w₂.state.showVersion) = true := by
        rw [hm.tracks.state]
        exact hasks
      rw [Bool.or_assoc, hflags, Bool.or_true, if_pos rfl]
      have hout := (finishArguments_internal w₂.state rc).quiet.out_eq w₂
      refine ⟨?_, fun hacc hflag => ?_⟩
      · rw [hout]
        exact hd.taken
      · rw [hout]
        exact (hd.whole (hd.accepts hacc hflag)).1
  · refine Fated.bind ?_ (afterArguments_fated _ _)
    refine Untouched.bind (untouched_of_quiet hquiet w) ?_
    rw [← hw₁]
    by_cases hok : (handleOptions inv.events w).value = .ok
    · rw [if_neg (not_not.2 hok)]
      exact dispatchOptions_untouched (by simpa [hok] using hinformed)
    · rw [if_pos hok]
      exact untouched_of_quiet (.ret _) w₁

end Arguments

theorem saltCliRunWithStreamsInternal_fated (inv : Invocation) (nullStream manageSignals : Bool)
    (w : World) : Fated (saltCliRunWithStreamsInternal inv nullStream manageSignals) w := by
  refine .ite (fated_of_quiet (.ret _) w) (.quiet_bind saltCliStateInit_internal.quiet fun _ w => ?_)
  refine Fated.bind_quiet (n := runStages inv manageSignals) ?_ fun rc =>
    .bind (cleanupRun_quiet manageSignals) fun _ => .ret rc
  refine .quiet_bind (installStage_quiet manageSignals) fun rc w => .ite (fated_of_quiet (.ret rc) w) ?_
  exact .quiet_bind saltCliResetInterrupted_quiet fun _ w => runArguments_fated inv w

theorem accepted_of_gives {text : Bytes} {s s' : OutStream} (h : Gives text s s') :
    s'.delivered <+: accepted s ++ text := by
  obtain ⟨n, hn⟩ := h.taken
  have hdelivered : s'.delivered <+: accepted s' := ⟨s'.pending, rfl⟩
  rw [hn] at hdelivered
  exact hdelivered.trans ((List.prefix_append_right_inj _).2 (List.take_prefix _ _))

theorem Fated.delivered_prefix {n : Cli SaltStatus} {w : World} (h : Fated n w) {o : OutStream}
    (hdelivered : o.delivered = w.out.delivered) (hpending : o.pending = w.out.pending)
    (hacc : o.Accepts) (hflag : o.errorFlag = false) :
    (n w).final.out.delivered <+: (n (setOut o w)).final.out.delivered := by
  rcases h with hsame | ⟨text, htext⟩
  · have hself : (n w).final = setOut w.out (n w).final := (hsame w.out).2
    have hout : (n w).final.out = w.out := by
      rw [hself]
      rfl
    rw [(hsame o).2, hout, ← hdelivered]
    exact List.prefix_refl _
  · have haccepted : accepted o = accepted w.out := by
      rw [accepted, accepted, hdelivered, hpending]
    rw [(htext o).whole hacc hflag, haccepted]
    exact accepted_of_gives (htext w.out)

/-- What a run that succeeds has written: help, version, or one record. -/
def CompleteOutput (inv : Invocation) (w : World) (text : Bytes) : Prop :=
  (inv.events.any asksText = true ∧ text = information inv w.env.version) ∨
    ∃ key keyId, Recorded w.env { startView w with state := optionState inv } key keyId text

section Stages
variable {inv : Invocation} {manageSignals : Bool} {w w₁ : World} {rc : SaltStatus}

theorem stages_complete (hstart : Starts inv w) (h : StagesEnd inv manageSignals w rc w₁)
    (hrc : rc = .ok) :
    (∃ text, CompleteOutput inv w text ∧ w₁.out.delivered = accepted w.out ++ text ∧
      w₁.out.pending = []) ∧ w₁.err = w.err := by
  cases h with
  | uninstalled _ hf _ => exact absurd hrc hf.ne_ok
  | ran hinstalled hrun =>
    have henv := (resetWorld_starts hstart hinstalled).env
    cases hrun with
    | misused _ _ _ hm _ => rcases hm.status with h | h <;> exact absurd (hrc.symm.trans h) (by decide)
    | informed _ hasks hissued =>
      rw [henv] at hissued
      exact ⟨⟨_, .inl ⟨hasks, rfl⟩, hissued.whole hrc⟩, (hissued.done hrc).2.2.2⟩
    | declined _ _ _ hd _ => exact absurd hrc hd.ne_ok
    | recorded _ _ _ key keyId text _ hrecorded hissued =>
      rw [henv] at hrecorded
      exact ⟨⟨text, .inr ⟨key, keyId, hrecorded⟩, hissued.whole hrc⟩, (hissued.done hrc).2.2.2⟩
    | refused _ _ _ hf _ _ => exact absurd hrc hf.ne_ok

theorem stages_withheld (h : StagesEnd inv manageSignals w rc w₁) (hok : rc ≠ .ok)
    (hio : rc ≠ .errIo) : w₁.out = w.out := by
  cases h with
  | uninstalled _ _ hout => exact hout
  | ran _ hrun =>
    cases hrun with
    | misused _ _ _ _ hout => exact hout
    | informed _ _ hissued => exact absurd (hissued.status.resolve_left hok) hio
    | declined _ _ _ _ hout => exact hout
    | recorded _ _ _ _ _ _ _ _ hissued => exact absurd (hissued.status.resolve_left hok) hio
    | refused _ _ _ _ hout _ => exact hout

end Stages

/-- The discipline of the output stream: what comes out is a beginning of what would come out of a
stream that never fails; success means the whole output and silence on the error stream; and any
other status but an I/O error means that the output stream was left alone. -/
theorem saltCliRunWithStreamsInternal_output (inv : Invocation) (nullStream manageSignals : Bool)
    (w : World) (hstart : Starts inv w) :
    let run := saltCliRunWithStreamsInternal inv nullStream manageSignals
    let r := run w
    (∀ script, (∀ i, ∃ n, script i = .ok n) → r.final.out.delivered <+:
      (run (setOut { w.out with script := script, errorFlag := false } w)).final.out.delivered) ∧
    (r.value = .ok →
      (∃ text, CompleteOutput inv w text ∧ r.final.out.delivered = accepted w.out ++ text ∧
        r.final.out.pending = []) ∧ r.final.err = w.err) ∧
    (r.value ≠ .ok → r.value ≠ .errIo → r.final.out = w.out) := by
  intro run r
  have hfated := saltCliRunWithStreamsInternal_fated inv nullStream manageSignals w
  refine ⟨fun script hscript => hfated.delivered_prefix rfl rfl hscript rfl, ?_⟩
  rcases saltCliRunWithStreamsInternal_ends nullStream manageSignals hstart with
    ⟨-, hrc, hw⟩ | ⟨-, -, w₁, hend, hclean⟩
  · refine ⟨fun hok => ?_, fun _ _ => congrArg World.out hw⟩
    exact absurd (hok.symm.trans hrc) (by decide)
  · have hout : r.final.out = w₁.out := hclean.out
    have herr : r.final.err = w₁.err := hclean.err
    rw [hout, herr]
    exact ⟨stages_complete hstart hend, stages_withheld hend⟩

def versionInvocation : Invocation where
  argc := 2
  argv := some [some programName, some ⟨ascii "-V", by decide⟩]
  events := [.version]
  positionals := []

theorem saltCliRunWithStreamsInternal_output_version :
    let w := freshWorld (calmEnv SealingCorrect.referenceSodium) [] []
    let r := saltCliRunWithStreamsInternal versionInvocation false true w
    r.value = .ok ∧ r.final.out.pending = [] ∧ r.final.err = w.err := by
  intro w r
  have hvalue : r.value = .ok := by decide
  have hstart : Starts versionInvocation w := ⟨rfl, fun _ hb => absurd hb List.not_mem_nil⟩
  obtain ⟨⟨text, -, -, hpending⟩, herr⟩ :=
    (saltCliRunWithStreamsInternal_output versionInvocation false true w hstart).2.1 hvalue
  exact ⟨hvalue, hpending, herr⟩

end Salt.OutputFate
