import Salt.Orchestration
import Salt.StreamFacts

set_option autoImplicit false

/-!
# What the calls before the output leave alone

`Quiet` programs neither read nor write the output stream: changing it before
them is changing it afterwards. `Steady` programs leave the signal
dispositions alone, never lose a signal that the handler has seen, and bring
no fault into a world without one, in every state they pass through.
-/
namespace Salt.Framing
open ByteStrings TracedState StreamFacts

def setOut (o : OutStream) (w : World) : World := { w with out := o }

def Quiet {α : Type} (m : Cli α) : Prop := ∀ o, Commutes (setOut o) m

structure Advances (w w' : World) : Prop where
  env : w'.env = w.env
  clock : w.clock ≤ w'.clock
  kept : w.interrupted = true → w'.interrupted = true
  seen : ∀ t s, w.clock ≤ t → t < w'.clock → w.env.signals t s = true →
    w.disposition s = .saltHandler → w'.interrupted = true
  sigint : w'.sigint = w.sigint
  sigterm : w'.sigterm = w.sigterm
  savedSigint : w'.savedSigint = w.savedSigint
  savedSigterm : w'.savedSigterm = w.savedSigterm
  installedAt : w'.installedAt = w.installedAt
  clearedAt : w'.clearedAt = w.clearedAt
  faultFree : FaultFree w → FaultFree w'

theorem Advances.refl (w : World) : Advances w w :=
  ⟨rfl, le_refl _, id, fun _ _ h h' => by omega, rfl, rfl, rfl, rfl, rfl, rfl, id⟩

theorem Advances.disposition {w w' : World} (h : Advances w w') (s : Signal) :
    w'.disposition s = w.disposition s := by
  cases s
  · exact h.sigint
  · exact h.sigterm

theorem Advances.trans {w w' w'' : World} (h : Advances w w') (h' : Advances w' w'') :
    Advances w w'' where
  env := h'.env.trans h.env
  clock := h.clock.trans h'.clock
  kept hi := h'.kept (h.kept hi)
  seen t s hle hlt harr hdisp := by
    by_cases ht : t < w'.clock
    · exact h'.kept (h.seen t s hle ht harr hdisp)
    · exact h'.seen t s (by omega) hlt (by rw [h.env]; exact harr)
        (by rw [h.disposition]; exact hdisp)
  sigint := h'.sigint.trans h.sigint
  sigterm := h'.sigterm.trans h.sigterm
  savedSigint := h'.savedSigint.trans h.savedSigint
  savedSigterm := h'.savedSigterm.trans h.savedSigterm
  installedAt := h'.installedAt.trans h.installedAt
  clearedAt := h'.clearedAt.trans h.clearedAt
  faultFree hw := h'.faultFree (h.faultFree hw)

theorem deliver_seen {w : World} {s : Signal} (harr : w.env.signals w.clock s = true)
    (hdisp : w.disposition s = .saltHandler) : w.deliver.interrupted = true := by
  cases s
  · have hd : w.sigint = .saltHandler := hdisp
    simp [World.deliver, harr, hd]
  · have hd : w.sigterm = .saltHandler := hdisp
    simp [World.deliver, harr, hd]

theorem faultFree_deliver {w : World} (h : FaultFree w) : FaultFree w.deliver := by
  refine ⟨h.alloc, h.signals, ?_, h.input, h.err⟩
  simp [World.deliver, h.interrupted, h.signals]

theorem faultFree_tick {w : World} (h : FaultFree w) : FaultFree w.tick := by
  have hlt {t : ℕ} (ht : w.tick.clock ≤ t) : w.clock ≤ t := Nat.le_of_succ_le ht
  exact ⟨fun t ht => h.alloc t (hlt ht), fun t s ht => h.signals t s (hlt ht), h.interrupted,
    h.input, h.err⟩

def Steady {α : Type} (m : Cli α) : Prop := Through Advances m

structure Internal {α : Type} (m : Cli α) : Prop where
  quiet : Quiet m
  steady : Steady m

theorem Internal.advances {α : Type} {m : Cli α} (h : Internal m) (w : World) :
    Advances w (m w).final := (h.steady w).1

section Closure
variable {α β : Type}

theorem Quiet.out_eq {m : Cli α} (h : Quiet m) (w : World) : (m w).final.out = w.out := by
  have hw : setOut w.out w = w := rfl
  have hc := (h w.out w).2
  rw [hw] at hc
  rw [hc]
  rfl

theorem Quiet.ret (a : α) : Quiet (pure a : Cli α) := fun _ => Commutes.ret a

theorem Quiet.bind {m : Cli α} {f : α → Cli β} (hm : Quiet m) (hf : ∀ a, Quiet (f a)) :
    Quiet (m >>= f) := fun o => (hm o).bind fun a => hf a o

theorem Quiet.ite {c : Prop} [Decidable c] {m n : Cli α} (hm : Quiet m) (hn : Quiet n) :
    Quiet (if c then m else n) := fun o => (hm o).ite (hn o)

theorem Quiet.atomic {f : World → α × World}
    (h : ∀ o w, f (setOut o w) = ((f w).1, setOut o (f w).2)) : Quiet (Salt.atomic f) := by
  intro o
  refine Commutes.step fun w => ?_
  have hd : (setOut o w).deliver = setOut o w.deliver := rfl
  rw [hd, h]
  rfl

theorem Steady.ret (a : α) : Steady (pure a : Cli α) := Through.ret Advances.refl a

theorem Steady.bind {m : Cli α} {f : α → Cli β} (hm : Steady m) (hf : ∀ a, Steady (f a)) :
    Steady (m >>= f) := Through.bind (R := Advances) (fun _ _ _ h h' => h.trans h') hm hf

theorem Steady.ite {c : Prop} [Decidable c] {m n : Cli α} (hm : Steady m) (hn : Steady n) :
    Steady (if c then m else n) := by
  split_ifs <;> assumption

theorem Steady.read (f : World → α) : Steady (Traced.read f) := Through.read Advances.refl f

theorem advances_atomic {f : World → α × World} (hclock : ∀ w, (f w).2.clock = w.clock)
    (hadv : ∀ w, Advances w (f w).2) (w : World) : Advances w (Salt.atomic f w).final := by
  have hd := hadv w.deliver
  have hc : (f w.deliver).2.clock = w.clock := hclock w.deliver
  refine ⟨hd.env, ?_, fun hi => hd.kept ?_, fun t s hle hlt harr hdisp => ?_, hd.sigint, hd.sigterm,
    hd.savedSigint, hd.savedSigterm, hd.installedAt, hd.clearedAt,
    fun hw => faultFree_tick (hd.faultFree (faultFree_deliver hw))⟩
  · change w.clock ≤ (f w.deliver).2.clock + 1
    omega
  · simp [World.deliver, hi]
  · change t < (f w.deliver).2.clock + 1 at hlt
    obtain rfl : t = w.clock := by omega
    exact hd.kept (deliver_seen harr hdisp)

theorem Steady.atomic {f : World → α × World} (hclock : ∀ w, (f w).2.clock = w.clock)
    (hadv : ∀ w, Advances w (f w).2) : Steady (Salt.atomic f) :=
  Through.step fun w => advances_atomic hclock hadv w

theorem Internal.ret (a : α) : Internal (pure a : Cli α) := ⟨.ret a, .ret a⟩

theorem Internal.bind {m : Cli α} {f : α → Cli β} (hm : Internal m) (hf : ∀ a, Internal (f a)) :
    Internal (m >>= f) :=
  ⟨hm.quiet.bind fun a => (hf a).quiet, hm.steady.bind fun a => (hf a).steady⟩

theorem Internal.ite {c : Prop} [Decidable c] {m n : Cli α} (hm : Internal m)
    (hn : Internal n) : Internal (if c then m else n) := by
  split_ifs <;> assumption

theorem Internal.read {f : World → α} (h : ∀ o w, f (setOut o w) = f w) :
    Internal (Traced.read f) := ⟨fun o => Commutes.read (h o), .read f⟩

/-- A call into the system that neither looks at the output stream nor resets the flag. -/
theorem Internal.atomic {f : World → α × World}
    (h : ∀ o w, f (setOut o w) = ((f w).1, setOut o (f w).2))
    (hclock : ∀ w, (f w).2.clock = w.clock) (hadv : ∀ w, Advances w (f w).2) :
    Internal (Salt.atomic f) :=
  ⟨.atomic h, .atomic hclock hadv⟩

theorem Internal.update {g : World → World} (h : ∀ o w, g (setOut o w) = setOut o (g w))
    (hadv : ∀ w, Advances w (g w)) : Internal (Traced.update g) :=
  ⟨fun o => Commutes.update (h o), Through.step hadv⟩

theorem Internal.step {f : World → α × World}
    (h : ∀ o w, f (setOut o w) = ((f w).1, setOut o (f w).2)) (hadv : ∀ w, Advances w (f w).2) :
    Internal (Traced.step f) :=
  ⟨fun o => Commutes.step (h o), Through.step hadv⟩

end Closure

/-- The part of a world that steady programs see. -/
def frame (w : World) : Env × ℕ × Bool × (Disposition × Disposition) ×
    (Option Disposition × Option Disposition) × Option ℕ × Option ℕ :=
  (w.env, w.clock, w.interrupted, (w.sigint, w.sigterm), (w.savedSigint, w.savedSigterm),
    w.installedAt, w.clearedAt)

/-- Everything outside the frame may change; the streams may not become worse. -/
theorem advances_of_streams {w w' : World} (hframe : frame w' = frame w)
    (hin : w.input.Reliable → w'.input.Reliable) (herr : w.err.Accepts → w'.err.Accepts) :
    Advances w w' := by
  simp only [frame, Prod.mk.injEq] at hframe
  obtain ⟨henv, hclock, hint, ⟨hsi, hst⟩, ⟨hsavedi, hsavedt⟩, hi, hc⟩ := hframe
  refine ⟨henv, hclock.ge, fun h => hint.trans h, fun _ _ h h' => by omega, hsi, hst, hsavedi, hsavedt,
    hi, hc, fun h => ?_⟩
  refine ⟨?_, ?_, hint.trans h.interrupted, hin h.input, herr h.err⟩
  · rw [hclock, henv]
    exact h.alloc
  · rw [hclock, henv]
    exact h.signals

theorem advances_of_eq {w w' : World} (hframe : frame w' = frame w) (hin : w'.input = w.input)
    (herr : w'.err = w.err) : Advances w w' :=
  advances_of_streams hframe (fun h => hin ▸ h) (fun h => herr ▸ h)

theorem getState_internal : Internal getState := .read fun _ _ => rfl

theorem modifyState_internal (f : CliState → CliState) : Internal (modifyState f) :=
  .update (fun _ _ => rfl) fun _ => advances_of_eq rfl rfl rfl

theorem undefinedBehaviour_internal : Internal undefinedBehaviour :=
  .update (fun _ _ => rfl) fun _ => advances_of_eq rfl rfl rfl

theorem saltCliAllocImpl_internal (size : ℕ) : Internal (saltCliAllocImpl size) := by
  refine .atomic (fun o w => ?_) (fun w => ?_) fun w => ?_
  · have halloc : (setOut o w).env.alloc (setOut o w).clock = w.env.alloc w.clock := rfl
    simp only [halloc]
    cases w.env.alloc w.clock <;> rfl
  · cases w.env.alloc w.clock <;> rfl
  · cases w.env.alloc w.clock <;> exact advances_of_eq rfl rfl rfl

theorem sodiumMlock_internal (len : ℕ) : Internal (sodiumMlock len) :=
  .atomic (fun _ _ => rfl) (fun _ => rfl) fun _ => advances_of_eq rfl rfl rfl

theorem sodiumMunlock_internal (id len : ℕ) : Internal (sodiumMunlock id len) :=
  .atomic (fun _ _ => rfl) (fun _ => rfl) fun _ => advances_of_eq rfl rfl rfl

theorem sodiumMemzero_internal (id len : ℕ) : Internal (sodiumMemzero id len) :=
  .atomic (fun _ _ => rfl) (fun _ => rfl) fun _ => advances_of_eq rfl rfl rfl

theorem saltCliFreeImpl_internal (id : ℕ) : Internal (saltCliFreeImpl id) :=
  .atomic (fun _ _ => rfl) (fun _ => rfl) fun _ => advances_of_eq rfl rfl rfl

theorem editBlock_internal (id : ℕ) (f : Bytes → Option Bytes) : Internal (editBlock id f) := by
  refine .update (fun o w => ?_) fun w => ?_
  · have hblock : blockBytes (setOut o w) id = blockBytes w id := rfl
    simp only [hblock]
    cases f (blockBytes w id) <;> rfl
  · cases f (blockBytes w id) <;> exact advances_of_eq rfl rfl rfl

theorem readByte_internal (id i : ℕ) : Internal (readByte id i) := by
  refine .step (fun o w => ?_) fun w => ?_
  · have hblock : blockBytes (setOut o w) id = blockBytes w id := rfl
    simp only [hblock]
    cases (blockBytes w id)[i]? <;> rfl
  · cases (blockBytes w id)[i]? <;> exact advances_of_eq rfl rfl rfl

theorem vfprintf_err_internal (data : Bytes) : Internal (vfprintf .err data) :=
  .atomic (fun _ _ => rfl) (fun _ => rfl) fun _ =>
    advances_of_streams rfl (fun h => h) fun h => write_accepts data h

theorem fflush_err_internal : Internal (fflush .err) :=
  .atomic (fun _ _ => rfl) (fun _ => rfl) fun _ =>
    advances_of_streams rfl (fun h => h) fun h => flush_accepts h

theorem saltCliFreadImpl_internal (id maxLen : ℕ) : Internal (saltCliFreadImpl id maxLen) :=
  .atomic (fun _ _ => rfl) (fun _ => rfl) fun _ =>
    advances_of_streams rfl (fun h => fread_reliable maxLen h) fun h => h

theorem saltCliFerrorImpl_internal : Internal saltCliFerrorImpl := .read fun _ _ => rfl

theorem saltCliFgetcImpl_internal : Internal saltCliFgetcImpl :=
  .atomic (fun _ _ => rfl) (fun _ => rfl) fun _ =>
    advances_of_streams rfl (fun h => fgetc_reliable h) fun h => h

theorem saltCliUngetcImpl_internal (c : UInt8) : Internal (saltCliUngetcImpl c) :=
  .atomic (fun _ _ => rfl) (fun _ => rfl) fun _ =>
    advances_of_streams rfl (fun h => ungetc_reliable c h) fun h => h

theorem loadInterrupted_internal : Internal loadInterrupted :=
  .atomic (fun _ _ => rfl) (fun _ => rfl) fun _ => .refl _

theorem scrubPositional_internal (i len : ℕ) : Internal (scrubPositional i len) :=
  .atomic (fun _ _ => rfl) (fun _ => rfl) fun _ => advances_of_eq rfl rfl rfl

theorem saltCliSetError_internal (useError : Bool) (message : Bytes) (rc : SaltStatus) :
    Internal (saltCliSetError useError message rc) :=
  (modifyState_internal _).bind fun _ => .ret _

theorem saltCliFlushStream_internal (useError : Bool) (message : Bytes) :
    Internal (saltCliFlushStream .err useError message) :=
  fflush_err_internal.bind fun _ => .ite (saltCliSetError_internal ..) (.ret _)

theorem saltCliWriteStream_internal (useError : Bool) (message text : Bytes) :
    Internal (saltCliWriteStream .err useError message text) :=
  (vfprintf_err_internal text).bind fun _ =>
    .ite (saltCliSetError_internal ..) (saltCliFlushStream_internal ..)

theorem saltCliReportStreamStatus_internal (useError : Bool) (rc : SaltStatus) (text : Bytes) :
    Internal (saltCliReportStreamStatus .err useError rc text) :=
  (vfprintf_err_internal text).bind fun _ => .ite (saltCliSetError_internal ..)
    ((saltCliFlushStream_internal ..).bind fun _ => .ite (.ret _) (.ret _))

theorem saltCliReportStateError_internal (rc : SaltStatus) :
    Internal (saltCliReportStateError rc) :=
  getState_internal.bind fun _ => saltCliReportStreamStatus_internal ..

theorem saltCliCheckInterrupted_internal : Internal saltCliCheckInterrupted :=
  loadInterrupted_internal.bind fun _ => .ite (saltCliSetError_internal ..) (.ret _)

theorem writeStateError_internal : Internal writeStateError :=
  getState_internal.bind fun _ => saltCliWriteStream_internal ..

theorem reportOrIo_internal (rc : SaltStatus) : Internal (reportOrIo rc) :=
  writeStateError_internal.bind fun _ => .ite (.ret _) (.ret _)

theorem cliSecureReleaseBuffer_internal (buffer len : ℕ) :
    Internal (cliSecureReleaseBuffer buffer len) :=
  (sodiumMunlock_internal ..).bind fun _ =>
    .ite ((sodiumMemzero_internal ..).bind fun _ => saltCliFreeImpl_internal _)
      (saltCliFreeImpl_internal _)

theorem failRead_internal (buffer maxLen : ℕ) (message : Bytes) (rc : SaltStatus) :
    Internal (failRead buffer maxLen message rc) :=
  (saltCliSetError_internal ..).bind fun _ =>
    (cliSecureReleaseBuffer_internal ..).bind fun _ => .ret _

theorem finishRead_internal (buffer bytesRead : ℕ) : Internal (finishRead buffer bytesRead) :=
  (editBlock_internal ..).bind fun _ => .ret _

theorem probeRead_internal (buffer maxLen : ℕ) : Internal (probeRead buffer maxLen) := by
  refine saltCliFgetcImpl_internal.bind fun nextChar => ?_
  cases nextChar with
  | none =>
    exact saltCliFerrorImpl_internal.bind fun _ =>
      .ite (failRead_internal ..) (finishRead_internal ..)
  | some c =>
    exact (saltCliUngetcImpl_internal c).bind fun _ =>
      .ite (failRead_internal ..) (failRead_internal ..)

theorem fillBuffer_internal (buffer maxLen : ℕ) : Internal (fillBuffer buffer maxLen) :=
  (sodiumMlock_internal _).bind fun _ => (saltCliFreadImpl_internal ..).bind fun _ =>
    saltCliCheckInterrupted_internal.bind fun _ =>
      .ite ((cliSecureReleaseBuffer_internal ..).bind fun _ => .ret _)
        (saltCliFerrorImpl_internal.bind fun _ => .ite (failRead_internal ..)
          (.ite (probeRead_internal ..) (finishRead_internal ..)))

theorem cliInputReadStreamLimited_internal (maxLen : ℕ) :
    Internal (cliInputReadStreamLimited maxLen) := by
  refine .bind (.read fun _ _ => rfl) fun width => .ite
    ((saltCliSetError_internal ..).bind fun _ => .ret _)
    (saltCliCheckInterrupted_internal.bind fun rc => .ite (.ret _)
      ((saltCliAllocImpl_internal _).bind fun buffer => ?_))
  cases buffer with
  | none => exact (saltCliSetError_internal ..).bind fun _ => .ret _
  | some buffer => exact fillBuffer_internal ..

theorem saltCliLoadPlaintextFromArgv_internal (plaintextArg : ℕ) :
    Internal (saltCliLoadPlaintextFromArgv plaintextArg) := by
  refine .bind (.read fun _ _ => rfl) fun source => .bind (.read fun _ _ => rfl) fun width => ?_
  cases cliBoundedStrlen source (saltGithubSecretMaxValueLen + 1) with
  | none => exact undefinedBehaviour_internal.bind fun _ => .ret _
  | some argLen =>
    refine .ite (saltCliReportStreamStatus_internal ..) (.ite (saltCliReportStreamStatus_internal ..)
      ((modifyState_internal _).bind fun _ => (saltCliAllocImpl_internal _).bind fun copy => ?_))
    cases copy with
    | none => exact saltCliReportStreamStatus_internal ..
    | some copy =>
      exact (modifyState_internal _).bind fun _ => (sodiumMlock_internal _).bind fun _ =>
        (editBlock_internal ..).bind fun _ => (scrubPositional_internal ..).bind fun _ =>
          (modifyState_internal _).bind fun _ => .ret _

theorem loadKeyFromStdin_internal : Internal loadKeyFromStdin := by
  refine (cliInputReadStreamLimited_internal _).bind fun r => ?_
  obtain ⟨rc, _ | ⟨stdinKey, keyLen⟩⟩ := r
  · exact saltCliReportStateError_internal rc
  · exact (modifyState_internal _).bind fun _ => (editBlock_internal ..).bind fun _ =>
      (readByte_internal ..).bind fun _ => .ite (saltCliReportStreamStatus_internal ..)
        ((modifyState_internal _).bind fun _ => .ret _)

theorem copyKeyOption_internal : Internal copyKeyOption := by
  refine getState_internal.bind fun s => .bind (.read fun _ _ => ?_) fun source => ?_
  · cases s.keyOption with
    | none => rfl
    | some ref => cases ref <;> rfl
  cases cliBoundedStrlen source (saltMaxKeyInputLen + 1) with
  | none => exact undefinedBehaviour_internal.bind fun _ => .ret _
  | some keyCopyLen =>
    refine .ite (saltCliReportStreamStatus_internal ..)
      ((saltCliAllocImpl_internal _).bind fun copy => ?_)
    cases copy with
    | none => exact saltCliReportStreamStatus_internal ..
    | some copy =>
      exact (modifyState_internal _).bind fun _ => (sodiumMlock_internal _).bind fun _ =>
        (editBlock_internal ..).bind fun _ => (editBlock_internal ..).bind fun _ => .ret _

theorem parseKeyOfState_internal : Internal parseKeyOfState := by
  refine .step (fun o w => ?_) fun w => ?_
  · have hp : parseTrimmedKey (setOut o w) = parseTrimmedKey w := rfl
    rw [hp]
    cases parseTrimmedKey w <;> rfl
  · cases parseTrimmedKey w <;> exact advances_of_eq rfl rfl rfl

theorem reportIfInterrupted_internal : Internal reportIfInterrupted :=
  saltCliCheckInterrupted_internal.bind fun _ => .ite (saltCliReportStateError_internal _) (.ret _)

theorem saltCliInputLoadKeyInput_internal : Internal saltCliInputLoadKeyInput :=
  .bind (getState_internal.bind fun _ => .ite loadKeyFromStdin_internal (.ret _)) fun _ =>
    .ite (.ret _) (copyKeyOption_internal.bind fun _ =>
      .ite (.ret _) (parseKeyOfState_internal.bind fun _ =>
        .ite (saltCliReportStateError_internal _) reportIfInterrupted_internal))

theorem loadPlaintextFromStdin_internal : Internal loadPlaintextFromStdin := by
  refine (cliInputReadStreamLimited_internal _).bind fun r => ?_
  obtain ⟨rc, _ | ⟨stdinPlaintext, messageLen⟩⟩ := r
  · exact saltCliReportStateError_internal rc
  · exact (modifyState_internal _).bind fun _ => .ret _

theorem saltCliInputLoadPlaintext_internal : Internal saltCliInputLoadPlaintext :=
  .bind (getState_internal.bind fun _ =>
      .ite loadPlaintextFromStdin_internal (saltCliLoadPlaintextFromArgv_internal _)) fun _ =>
    .ite (.ret _) (reportIfInterrupted_internal.bind fun _ =>
      .ite (.ret _) (getState_internal.bind fun _ =>
        .ite (saltCliReportStreamStatus_internal ..) (.ret _)))

theorem saltCliSealImpl_internal : Internal saltCliSealImpl :=
  .atomic (fun _ _ => rfl) (fun _ => rfl) fun _ => advances_of_eq rfl rfl rfl

theorem markSealPoll_internal : Internal markSealPoll :=
  .update (fun _ _ => rfl) fun _ => advances_of_eq rfl rfl rfl

theorem checkSealed_internal : Internal checkSealed :=
  saltCliCheckInterrupted_internal.bind fun _ => markSealPoll_internal.bind fun _ =>
    .ite (saltCliReportStateError_internal _) (getState_internal.bind fun _ =>
      .ite (saltCliReportStreamStatus_internal ..) (.ret _))

theorem sealIntoOutput_internal (output outputSize : ℕ) :
    Internal (sealIntoOutput output outputSize) :=
  (modifyState_internal _).bind fun _ => (sodiumMlock_internal _).bind fun _ =>
    saltCliSealImpl_internal.bind fun _ =>
      .ite (saltCliReportStateError_internal _) checkSealed_internal

theorem saltCliPrepareOutput_internal : Internal saltCliPrepareOutput := by
  refine (modifyState_internal _).bind fun _ => .bind (.read fun _ _ => rfl) fun outputSize =>
    .ite (saltCliReportStreamStatus_internal ..) ((saltCliAllocImpl_internal _).bind fun output => ?_)
  cases output with
  | none => exact saltCliReportStreamStatus_internal ..
  | some output => exact sealIntoOutput_internal ..

theorem saltCliHandleOption_internal (event : OptEvent) :
    Internal (saltCliHandleOption event) := by
  refine getState_internal.bind fun s => ?_
  cases handleOption s event with
  | ok s => exact (modifyState_internal _).bind fun _ => .ret _
  | error text => exact saltCliReportStreamStatus_internal ..

theorem handleOptions_internal (events : List OptEvent) : Internal (handleOptions events) := by
  induction events with
  | nil => exact .ret _
  | cons event rest ih => exact (saltCliHandleOption_internal event).bind fun _ => .ite (.ret _) ih

theorem reportWithUsage_internal (program : CString) (text : Bytes) :
    Internal (reportWithUsage program text) :=
  (saltCliReportStreamStatus_internal ..).bind fun _ => .ite (.ret _)
    ((saltCliWriteStream_internal ..).bind fun _ => .ite (.ret _) (.ret _))

theorem checkOptions_internal (inv : Invocation) : Internal (checkOptions inv) :=
  getState_internal.bind fun _ => .ite (reportWithUsage_internal ..)
    (.ite (saltCliReportStreamStatus_internal ..) (.ite (saltCliReportStreamStatus_internal ..)
      (.ite ((modifyState_internal _).bind fun _ => reportWithUsage_internal ..)
        ((modifyState_internal _).bind fun _ => getState_internal.bind fun _ =>
          .ite (saltCliReportStreamStatus_internal ..) (.ret _)))))

theorem finishArguments_internal (s : CliState) (rc : SaltStatus) :
    Internal (finishArguments s rc) :=
  .ite (writeStateError_internal.bind fun _ => .ret _) (.ret _)

theorem saltCliStateInit_internal : Internal saltCliStateInit :=
  (modifyState_internal _).bind fun _ => (modifyState_internal _).bind fun _ =>
    (sodiumMlock_internal _).bind fun _ => (sodiumMlock_internal _).bind fun _ =>
      (sodiumMlock_internal _).bind fun _ => modifyState_internal _

theorem saltCliSecureFreeRegion_internal (id : Option ℕ) (len : ℕ) :
    Internal (saltCliSecureFreeRegion id len) := by
  cases id with
  | none => exact .ret _
  | some id =>
    exact .bind (.ite (.ret _) ((sodiumMunlock_internal ..).bind fun _ =>
      .ite (sodiumMemzero_internal ..) (.ret _))) fun _ => saltCliFreeImpl_internal id

theorem unlockFixedBuffer_internal (buffer : FixedBuffer) :
    Internal (unlockFixedBuffer buffer) :=
  .bind (.atomic (fun _ _ => rfl) (fun _ => rfl) fun _ => advances_of_eq rfl rfl rfl)
    fun _ => .ite (modifyState_internal _) (.ret _)

theorem saltCliStateCleanup_internal : Internal saltCliStateCleanup :=
  getState_internal.bind fun _ => (saltCliSecureFreeRegion_internal ..).bind fun _ =>
    (saltCliSecureFreeRegion_internal ..).bind fun _ =>
    (saltCliSecureFreeRegion_internal ..).bind fun _ =>
    (saltCliSecureFreeRegion_internal ..).bind fun _ =>
    (saltCliSecureFreeRegion_internal ..).bind fun _ =>
    .bind (.ite ((unlockFixedBuffer_internal _).bind fun _ => (unlockFixedBuffer_internal _).bind
      fun _ => unlockFixedBuffer_internal _) (.ret _)) fun _ => modifyState_internal _

theorem sigaction_quiet (signal : Signal) (d : Disposition) : Quiet (sigaction signal d) := by
  refine .atomic fun o w => ?_
  have henv : (setOut o w).env.sigaction (setOut o w).clock = w.env.sigaction w.clock := rfl
  rw [henv]
  by_cases hz : w.env.sigaction w.clock = 0
  · simp only [hz, if_true]
    cases signal <;> rfl
  · simp only [if_neg hz]
    cases signal <;> rfl

theorem setSaved_quiet (signal : Signal) (d : Option Disposition) : Quiet (setSaved signal d) := by
  intro o
  cases signal <;> exact Commutes.update fun _ => rfl

theorem saltCliEnsureSignalHandlers_quiet : Quiet saltCliEnsureSignalHandlers :=
  .bind (.atomic fun _ _ => rfl) fun _ => .ite (.ret _)
    ((sigaction_quiet _ _).bind fun _ => .ite (.ret _)
      ((setSaved_quiet _ _).bind fun _ => (sigaction_quiet _ _).bind fun _ =>
        .ite ((sigaction_quiet _ _).bind fun _ => (setSaved_quiet _ _).bind fun _ => .ret _)
          ((setSaved_quiet _ _).bind fun _ => .bind (fun _ => Commutes.update fun _ => rfl)
            fun _ => .ret _)))

theorem restoreSignalHandler_quiet (signal : Signal) : Quiet (restoreSignalHandler signal) := by
  refine .bind (fun o => Commutes.read fun w => by cases signal <;> rfl) fun saved => ?_
  cases saved with
  | none => exact .ret _
  | some d => exact (sigaction_quiet _ _).bind fun _ => setSaved_quiet _ _

theorem installStage_quiet (manageSignals : Bool) : Quiet (installStage manageSignals) :=
  .ite (saltCliEnsureSignalHandlers_quiet.bind fun _ =>
    .ite ((saltCliSetError_internal ..).quiet.bind fun _ => (reportOrIo_internal _).quiet) (.ret _))
    (.ret _)

theorem saltCliResetInterrupted_quiet : Quiet saltCliResetInterrupted := .atomic fun _ _ => rfl

theorem cleanupRun_quiet (manageSignals : Bool) : Quiet (cleanupRun manageSignals) :=
  .ite (.bind ((restoreSignalHandler_quiet _).bind fun _ => restoreSignalHandler_quiet _)
    fun _ => saltCliStateCleanup_internal.quiet) saltCliStateCleanup_internal.quiet

end Salt.Framing
