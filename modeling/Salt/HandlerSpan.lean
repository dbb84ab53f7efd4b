import Salt.RunCorrect

set_option autoImplicit false

/-!
# The span in which the handlers are in force

From the installation of the handlers to the cleanup label every state of a
run has them in force, and no signal that arrives is lost.
-/
namespace Salt.HandlerSpan
open ByteStrings BlockHeap TracedState StreamFacts Framing Tracking ArgumentsCorrect PipelineCorrect
  RunCorrect

/-- Steady, and the poll behind the seal is not passed. -/
structure Settles (w w' : World) : Prop where
  advances : Advances w w'
  sealPollAt : w'.sealPollAt = w.sealPollAt

def Settled {α : Type} (m : Cli α) : Prop := Through Settles m

section Closure
variable {α β : Type}

theorem Settles.refl (w : World) : Settles w w := ⟨.refl w, rfl⟩

theorem Settles.trans {w w' w'' : World} (h : Settles w w') (h' : Settles w' w'') :
    Settles w w'' :=
  ⟨h.advances.trans h'.advances, h'.sealPollAt.trans h.sealPollAt⟩

theorem Settled.ret (a : α) : Settled (pure a : Cli α) := Through.ret Settles.refl a

theorem Settled.bind {m : Cli α} {f : α → Cli β} (hm : Settled m) (hf : ∀ a, Settled (f a)) :
    Settled (m >>= f) := Through.bind (R := Settles) (fun _ _ _ h h' => h.trans h') hm hf

theorem Settled.ite {c : Prop} [Decidable c] {m n : Cli α} (hm : Settled m) (hn : Settled n) :
    Settled (if c then m else n) := by
  split_ifs <;> assumption

theorem Settled.read (f : World → α) : Settled (Traced.read f) := Through.read Settles.refl f

theorem Settled.atomic {f : World → α × World} (hclock : ∀ w, (f w).2.clock = w.clock)
    (hadv : ∀ w, Advances w (f w).2) (hpoll : ∀ w, (f w).2.sealPollAt = w.sealPollAt) :
    Settled (Salt.atomic f) :=
  Through.step fun w => ⟨advances_atomic hclock hadv w, hpoll w.deliver⟩

theorem Settled.steady {m : Cli α} (h : Settled m) : Steady m := fun w =>
  ⟨(h w).1.advances, fun t ht => ((h w).2 t ht).advances⟩

end Closure

theorem modifyState_settled (f : CliState → CliState) : Settled (modifyState f) :=
  Through.step fun _ => ⟨advances_of_eq rfl rfl rfl, rfl⟩

theorem getState_settled : Settled getState := .read _

theorem vfprintf_settled (sink : Sink) (data : Bytes) : Settled (vfprintf sink data) := by
  cases sink with
  | out =>
    exact .atomic (fun _ => rfl) (fun _ => advances_of_eq rfl rfl rfl) fun _ => rfl
  | err =>
    exact .atomic (fun _ => rfl)
      (fun _ => advances_of_streams rfl (fun h => h) fun h => write_accepts data h) fun _ => rfl

theorem fflush_settled (sink : Sink) : Settled (fflush sink) := by
  cases sink with
  | out => exact .atomic (fun _ => rfl) (fun _ => advances_of_eq rfl rfl rfl) fun _ => rfl
  | err =>
    exact .atomic (fun _ => rfl)
      (fun _ => advances_of_streams rfl (fun h => h) fun h => flush_accepts h) fun _ => rfl

theorem saltCliSetError_settled (useError : Bool) (message : Bytes) (rc : SaltStatus) :
    Settled (saltCliSetError useError message rc) :=
  (modifyState_settled _).bind fun _ => .ret _

theorem saltCliFlushStream_settled (sink : Sink) (useError : Bool) (message : Bytes) :
    Settled (saltCliFlushStream sink useError message) :=
  (fflush_settled sink).bind fun _ => .ite (saltCliSetError_settled _ _ _) (.ret _)

theorem saltCliWriteStream_settled (sink : Sink) (useError : Bool) (message text : Bytes) :
    Settled (saltCliWriteStream sink useError message text) :=
  (vfprintf_settled sink text).bind fun _ =>
    .ite (saltCliSetError_settled _ _ _) (saltCliFlushStream_settled _ _ _)

theorem reportOrIo_settled (rc : SaltStatus) : Settled (reportOrIo rc) :=
  .bind (getState_settled.bind fun _ => saltCliWriteStream_settled _ _ _ _) fun _ =>
    .ite (.ret _) (.ret _)

theorem cliStreamWriteError_settled (message : Bytes) : Settled (cliStreamWriteError message) :=
  (modifyState_settled _).bind fun _ => .ret _

theorem cliStreamWrite_settled (data : Bytes) : Settled (cliStreamWrite data) :=
  (vfprintf_settled .out data).bind fun _ => .ite (cliStreamWriteError_settled _) (.ret _)

theorem cliStreamFlush_settled : Settled cliStreamFlush :=
  (fflush_settled .out).bind fun _ => .bind (.read _) fun _ =>
    .ite (cliStreamWriteError_settled _) (.ret _)

theorem writeJsonByte_settled (c : UInt8) : Settled (writeJsonByte c) :=
  .ite ((cliStreamWrite_settled _).bind fun _ => .ite (.ret _) (cliStreamWrite_settled _))
    (.ite (cliStreamWrite_settled _) (.ite (cliStreamWrite_settled _)
      (.ite (cliStreamWrite_settled _) (.ite (cliStreamWrite_settled _) (cliStreamWrite_settled _)))))

theorem writeJsonBytes_settled (s : Bytes) : Settled (writeJsonBytes s) := by
  induction s with
  | nil => exact cliStreamWrite_settled _
  | cons c cursor ih => exact (writeJsonByte_settled c).bind fun _ => .ite (.ret _) ih

theorem writeJsonString_settled (value : CString) : Settled (writeJsonString value) :=
  (cliStreamWrite_settled _).bind fun _ => .ite (.ret _) (writeJsonBytes_settled _)

theorem writeAll_settled {writes : List (Cli SaltStatus)} (h : ∀ m ∈ writes, Settled m) :
    Settled (writeAll writes) := by
  induction writes with
  | nil => exact .ret _
  | cons write rest ih =>
    rw [List.forall_mem_cons] at h
    exact h.1.bind fun _ => .ite (.ret _) (ih h.2)

theorem emitJson_settled (value keyId : CString) : Settled (emitJson value keyId) := by
  refine .bind (writeAll_settled ?_) fun _ => .ite (.ret _) cliStreamFlush_settled
  simp only [List.forall_mem_cons, List.not_mem_nil, false_imp_iff, implies_true, and_true]
  exact ⟨cliStreamWrite_settled _, cliStreamWrite_settled _, writeJsonString_settled _,
    cliStreamWrite_settled _, writeJsonString_settled _, cliStreamWrite_settled _⟩

theorem emitError_settled (message : Bytes) : Settled (emitError message) :=
  (modifyState_settled _).bind fun _ => .ret _

theorem saltCliEmitOutput_settled (mode : OutputMode) (value : CString) (keyId : Option CString) :
    Settled (saltCliEmitOutput mode value keyId) := by
  refine .ite ((cliStreamWrite_settled _).bind fun _ => .ite (.ret _) cliStreamFlush_settled) ?_
  cases keyId with
  | none => exact emitError_settled _
  | some keyId =>
    exact .ite (emitError_settled _) (.ite (emitError_settled _) (emitJson_settled _ _))

theorem emitStage_settled : Settled emitStage :=
  getState_settled.bind fun _ => .bind (.read _) fun _ =>
    (saltCliEmitOutput_settled _ _ _).bind fun rc => .ite (reportOrIo_settled rc) (.ret _)

theorem saltCliSecureFreeRegion_settled (id : Option ℕ) (len : ℕ) :
    Settled (saltCliSecureFreeRegion id len) := by
  cases id with
  | none => exact .ret _
  | some id =>
    have hwipe {α : Type} (f : World → α) : Settled (Salt.atomic fun w =>
        (f w, { w with heap := w.heap.modify id (Block.wipe len) })) :=
      .atomic (fun _ => rfl) (fun _ => advances_of_eq rfl rfl rfl) fun _ => rfl
    exact .bind (.ite (.ret _) ((hwipe _).bind fun _ => .ite (hwipe _) (.ret _))) fun _ =>
      .atomic (fun _ => rfl) (fun _ => advances_of_eq rfl rfl rfl) fun _ => rfl

theorem unlockFixedBuffer_settled (buffer : FixedBuffer) : Settled (unlockFixedBuffer buffer) :=
  .bind (.atomic (fun _ => rfl) (fun _ => advances_of_eq rfl rfl rfl) fun _ => rfl)
    fun _ => .ite (modifyState_settled _) (.ret _)

theorem saltCliStateCleanup_settled : Settled saltCliStateCleanup :=
  getState_settled.bind fun _ => (saltCliSecureFreeRegion_settled _ _).bind fun _ =>
    (saltCliSecureFreeRegion_settled _ _).bind fun _ =>
    (saltCliSecureFreeRegion_settled _ _).bind fun _ =>
    (saltCliSecureFreeRegion_settled _ _).bind fun _ =>
    (saltCliSecureFreeRegion_settled _ _).bind fun _ =>
    .bind (.ite ((unlockFixedBuffer_settled _).bind fun _ => (unlockFixedBuffer_settled _).bind
      fun _ => unlockFixedBuffer_settled _) (.ret _)) fun _ => modifyState_settled _

theorem encryptStages_steady : Steady encryptStages :=
  saltCliInputLoadKeyInput_internal.steady.bind fun _ => .ite (.ret _)
    (saltCliInputLoadPlaintext_internal.steady.bind fun _ => .ite (.ret _)
      (saltCliPrepareOutput_internal.steady.bind fun _ => .ite (.ret _) emitStage_settled.steady))

theorem saltCliArgsParseArguments_steady (inv : Invocation) :
    Steady (saltCliArgsParseArguments inv) := by
  refine (handleOptions_internal _).steady.bind fun _ => .ite (.ret _) ?_
  refine getState_internal.steady.bind fun _ =>
    .ite (saltCliWriteStream_settled _ _ _ _).steady (.ite ?_ (checkOptions_internal inv).steady)
  exact (Steady.read _).bind fun _ => (saltCliWriteStream_settled _ _ _ _).steady

theorem runArguments_steady (inv : Invocation) : Steady (runArguments inv) :=
  (saltCliArgsParseArguments_steady inv).bind fun _ => getState_internal.steady.bind fun _ =>
    .ite (finishArguments_internal ..).steady encryptStages_steady

section Handlers
variable {w : World}

structure HandlersInForce (w w' : World) : Prop where
  sigint : w'.sigint = .saltHandler
  sigterm : w'.sigterm = .saltHandler
  savedSigint : w'.savedSigint = some w.sigint
  savedSigterm : w'.savedSigterm = some w.sigterm

theorem HandlersInForce.disposition {w' : World} (h : HandlersInForce w w') (s : Signal) :
    w'.disposition s = .saltHandler := by
  cases s
  · exact h.sigint
  · exact h.sigterm

theorem HandlersInForce.saved {w' : World} (h : HandlersInForce w w') (s : Signal) :
    w'.saved s = some (w.disposition s) := by
  cases s
  · exact h.savedSigint
  · exact h.savedSigterm

structure SameHandlers (w w' : World) : Prop where
  sigint : w'.sigint = w.sigint
  sigterm : w'.sigterm = w.sigterm
  savedSigint : w'.savedSigint = w.savedSigint
  savedSigterm : w'.savedSigterm = w.savedSigterm

theorem SameHandlers.trans {w w' w'' : World} (h : SameHandlers w w') (h' : SameHandlers w' w'') :
    SameHandlers w w'' :=
  ⟨h'.sigint.trans h.sigint, h'.sigterm.trans h.sigterm, h'.savedSigint.trans h.savedSigint,
    h'.savedSigterm.trans h.savedSigterm⟩

theorem SameHandlers.disposition {w w' : World} (h : SameHandlers w w') :
    w'.disposition = w.disposition :=
  funext fun s => by
    cases s
    · exact h.sigint
    · exact h.sigterm

theorem SameHandlers.saved {w w' : World} (h : SameHandlers w w') : w'.saved = w.saved :=
  funext fun s => by
    cases s
    · exact h.savedSigint
    · exact h.savedSigterm

theorem sameHandlers_of_eq {w w' : World} (hd : w'.disposition = w.disposition)
    (hs : w'.saved = w.saved) : SameHandlers w w' :=
  ⟨congrFun hd .sigint, congrFun hd .sigterm, congrFun hs .sigint, congrFun hs .sigterm⟩

theorem Advances.sameHandlers {w w' : World} (h : Advances w w') : SameHandlers w w' :=
  ⟨h.sigint, h.sigterm, h.savedSigint, h.savedSigterm⟩

theorem HandlersInForce.kept {w₁ w₂ : World} (h : HandlersInForce w w₁) (hs : SameHandlers w₁ w₂) :
    HandlersInForce w w₂ :=
  ⟨hs.sigint.trans h.sigint, hs.sigterm.trans h.sigterm, hs.savedSigint.trans h.savedSigint,
    hs.savedSigterm.trans h.savedSigterm⟩

theorem HandlersInForce.advances {w₁ w₂ : World} (h : HandlersInForce w w₁) (ha : Advances w₁ w₂) :
    HandlersInForce w w₂ := h.kept (Advances.sameHandlers ha)

theorem sigaction_ends (w : World) (signal : Signal) (d : Disposition) :
    Ends (sigaction signal d) w fun r w' => r.2 = w.disposition signal ∧
      ((r.1 = 0 ∧ w.env.sigaction w.clock = 0 ∧ w' = (w.deliver.setDisposition signal d).tick) ∨
        (r.1 ≠ 0 ∧ w.env.sigaction w.clock ≠ 0 ∧ w' = w.deliver.tick)) := by
  refine ⟨by cases signal <;> rfl, ?_⟩
  by_cases h : w.env.sigaction w.clock = 0
  · exact .inl ⟨h, h, congrArg World.tick (if_pos h)⟩
  · exact .inr ⟨h, h, congrArg World.tick (if_neg h)⟩

@[simp] theorem disposition_setDisposition (w : World) (signal : Signal) (d : Disposition) :
    (w.setDisposition signal d).disposition = Function.update w.disposition signal d :=
  funext fun s => by cases signal <;> cases s <;> rfl

@[simp] theorem saved_setDisposition (w : World) (signal : Signal) (d : Disposition) :
    (w.setDisposition signal d).saved = w.saved :=
  funext fun s => by cases signal <;> cases s <;> rfl

@[simp] theorem disposition_setSaved (w : World) (signal : Signal) (d : Option Disposition) :
    (w.setSaved signal d).disposition = w.disposition :=
  funext fun s => by cases signal <;> cases s <;> rfl

@[simp] theorem saved_setSaved (w : World) (signal : Signal) (d : Option Disposition) :
    (w.setSaved signal d).saved = Function.update w.saved signal d :=
  funext fun s => by cases signal <;> cases s <;> rfl

@[simp] theorem disposition_call (w : World) : w.deliver.tick.disposition = w.disposition :=
  funext fun s => by cases s <;> rfl

@[simp] theorem saved_call (w : World) : w.deliver.tick.saved = w.saved :=
  funext fun s => by cases s <;> rfl

structure Handled (w : World) (steps : ℕ) (inForce : Signal → Disposition)
    (saved : Signal → Option Disposition) (w' : World) : Prop where
  env : w'.env = w.env
  clock : w'.clock = w.clock + steps
  inForce : w'.disposition = inForce
  saved : w'.saved = saved

section Handling
variable {w₁ w₂ : World} {n : ℕ} {inForce : Signal → Disposition}
  {saved : Signal → Option Disposition}

theorem Handled.refl (w : World) : Handled w 0 w.disposition w.saved w := ⟨rfl, rfl, rfl, rfl⟩

theorem Handled.ticks (h : Handled w n inForce saved w₁) :
    Handled w (n + 1) inForce saved w₁.deliver.tick :=
  ⟨h.env, congrArg (· + 1) h.clock, (disposition_call w₁).trans h.inForce,
    (saved_call w₁).trans h.saved⟩

theorem Handled.sigaction (h : Handled w n inForce saved w₁) (signal : Signal) (d : Disposition) :
    Ends (sigaction signal d) w₁ fun r w₂ => r.2 = inForce signal ∧
      ((r.1 = 0 ∧ w.env.sigaction (w.clock + n) = 0 ∧
          Handled w (n + 1) (Function.update inForce signal d) saved w₂) ∨
        (r.1 ≠ 0 ∧ w.env.sigaction (w.clock + n) ≠ 0 ∧ Handled w (n + 1) inForce saved w₂)) := by
  refine (sigaction_ends w₁ signal d).mono fun r w₂ ⟨hold, hend⟩ =>
    ⟨hold.trans (congrFun h.inForce signal), ?_⟩
  rcases hend with ⟨hrc, hzero, rfl⟩ | ⟨hrc, hfails, rfl⟩
  · rw [h.env, h.clock] at hzero
    refine .inl ⟨hrc, hzero, ?_⟩
    -- the disposition is set between the delivery and the tick
    have hset : (w₁.deliver.setDisposition signal d).tick = w₁.deliver.tick.setDisposition signal d := by
      cases signal <;> rfl
    have htick := h.ticks
    rw [hset]
    refine ⟨?_, ?_, ?_, ?_⟩
    · cases signal <;> exact htick.env
    · cases signal <;> exact htick.clock
    · rw [disposition_setDisposition, htick.inForce]
    · rw [saved_setDisposition, htick.saved]
  · rw [h.env, h.clock] at hfails
    exact .inr ⟨hrc, hfails, h.ticks⟩

theorem Handled.setSaved (h : Handled w n inForce saved w₁) (signal : Signal)
    (d : Option Disposition) :
    Handled w n inForce (Function.update saved signal d) (w₁.setSaved signal d) := by
  refine ⟨?_, ?_, ?_, ?_⟩
  · cases signal <;> exact h.env
  · cases signal <;> exact h.clock
  · rw [disposition_setSaved, h.inForce]
  · rw [saved_setSaved, h.saved]

theorem Handled.sameHandlers (h : Handled w n inForce saved w₁) (hforce : inForce = w.disposition)
    (hsaved : saved = w.saved) : SameHandlers w w₁ :=
  sameHandlers_of_eq (h.inForce.trans hforce) (h.saved.trans hsaved)

end Handling

/-- The outcomes of the next three calls let both handlers be installed. -/
structure Installable (w : World) : Prop where
  sigemptyset : w.env.sigemptyset w.clock = 0
  sigint : w.env.sigaction (w.clock + 1) = 0
  sigterm : w.env.sigaction (w.clock + 2) = 0

/-- What `salt_cli_ensure_signal_handlers` leaves: the handlers, or what was there before. -/
theorem saltCliEnsureSignalHandlers_installs (w : World) :
    Ends saltCliEnsureSignalHandlers w fun rc w' => w'.env = w.env ∧
      ((rc = .ok ∧ Installable w ∧ HandlersInForce w w' ∧ w'.clock = w.clock + 3 ∧
          w'.installedAt = some (w.clock + 3)) ∨
        (rc ≠ .ok ∧ ¬ Installable w ∧ (w.savedSigint = none → SameHandlers w w' ∨
          (w.env.sigaction (w.clock + 3) ≠ 0 ∧ w.clock + 3 < w'.clock)))) := by
  have hempty : Ends sigemptyset w fun rc w' => rc = w.env.sigemptyset w.clock ∧
      Handled w 1 w.disposition w.saved w' := ⟨rfl, (Handled.refl w).ticks⟩
  refine hempty.bind fun rc w₁ ⟨hset, h₁⟩ => ?_
  refine .ite (fun hrc => .ret ⟨h₁.env, .inr ⟨by decide, fun h => hrc (hset.trans h.sigemptyset),
    fun _ => .inl (h₁.sameHandlers rfl rfl)⟩⟩) fun hrc₁ => ?_
  refine (h₁.sigaction .sigint .saltHandler).bind fun r w₂ ⟨hold, h₂⟩ => ?_
  refine .ite (fun hrc => ?_) fun hrc => ?_
  · obtain ⟨-, hfails, h₂⟩ := h₂.resolve_left fun h => hrc h.1
    exact .ret ⟨h₂.env, .inr ⟨by decide, fun h => hfails h.sigint,
      fun _ => .inl (h₂.sameHandlers rfl rfl)⟩⟩
  obtain ⟨-, hint, h₂⟩ := h₂.resolve_right fun h => h.1 (not_not.1 hrc)
  refine Ends.bind (R := fun _ w₃ => Handled w 2 _ _ w₃) (h₂.setSaved .sigint (some r.2))
    fun _ w₃ h₃ => ?_
  refine (h₃.sigaction .sigterm .saltHandler).bind fun r' w₄ ⟨hold', h₄⟩ => ?_
  refine .ite (fun hrc => ?_) fun hrc => ?_
  · obtain ⟨-, hterm, h₄⟩ := h₄.resolve_left fun h => hrc h.1
    have hno : ¬ Installable w := fun h => hterm h.sigterm
    refine (h₄.sigaction .sigint r.2).bind fun r'' w₅ ⟨_, h₅⟩ => ?_
    rcases h₅ with ⟨-, -, h₅⟩ | ⟨-, hfails, h₅⟩
    · have h₆ := h₅.setSaved .sigint none
      refine ⟨h₆.env, .inr ⟨SaltStatus.noConfusion, hno, fun hnone => .inl (h₆.sameHandlers ?_ ?_)⟩⟩
      · rw [Function.update_idem, hold, Function.update_eq_self]
      · rw [Function.update_idem]
        exact (Function.update_eq_self_iff).2 hnone.symm
    · have h₆ := h₅.setSaved .sigint none
      have hlate := (Nat.lt_succ_self (w.clock + 3)).trans_eq h₆.clock.symm
      exact ⟨h₆.env, .inr ⟨SaltStatus.noConfusion, hno, fun _ => .inr ⟨hfails, hlate⟩⟩⟩
  · obtain ⟨-, hterm, h₄⟩ := h₄.resolve_right fun h => h.1 (not_not.1 hrc)
    have h₅ := h₄.setSaved .sigterm (some r'.2)
    have hinstallable : Installable w := ⟨hset.symm.trans (not_not.1 hrc₁), hint, hterm⟩
    refine ⟨h₅.env, .inl ⟨rfl, hinstallable, ?_, h₅.clock, congrArg some h₅.clock⟩⟩
    exact ⟨congrFun h₅.inForce .sigint, congrFun h₅.inForce .sigterm,
      (congrFun h₅.saved .sigint).trans (congrArg some hold),
      (congrFun h₅.saved .sigterm).trans (congrArg some hold')⟩

theorem installStage_installs (w : World) :
    Ends (installStage true) w fun rc w' => w'.env = w.env ∧
      ((rc = .ok ∧ Installable w ∧ HandlersInForce w w' ∧ w'.clock = w.clock + 3 ∧
          w'.installedAt = some (w.clock + 3)) ∨
        (rc ≠ .ok ∧ ¬ Installable w ∧ (w.savedSigint = none → SameHandlers w w' ∨
          (w.env.sigaction (w.clock + 3) ≠ 0 ∧ w.clock + 3 < w'.clock)))) := by
  refine (saltCliEnsureSignalHandlers_installs w).bind fun rc w₁ ⟨henv, hend⟩ =>
    .ite (fun hrc => ?_) fun hrc => ?_
  · obtain ⟨-, hno, hsame⟩ := hend.resolve_left fun h => hrc h.1
    have hadv : Ends (do
        let rc ← saltCliSetError true (ascii "failed to install signal handlers") .errInternal
        reportOrIo rc) w₁ fun _ w' => Advances w₁ w' :=
      ((saltCliSetError_internal _ _ _).bind fun rc => reportOrIo_internal rc).advances w₁
    have hrc' : Ends (do
        let rc ← saltCliSetError true (ascii "failed to install signal handlers") .errInternal
        reportOrIo rc) w₁ fun rc _ => rc ≠ .ok := by
      have hset : Ends (saltCliSetError true (ascii "failed to install signal handlers")
        .errInternal) w₁ fun rc _ => rc = .errInternal := rfl
      refine hset.bind ?_
      rintro _ w₂ rfl
      exact Ends.bind (R := fun _ _ => True) trivial fun _ _ _ =>
        .ite (fun _ => .ret (by decide)) fun _ => .ret (by decide)
    refine (hadv.and hrc').mono fun rc w₂ ⟨hadv, hne⟩ => ⟨hadv.env.trans henv, .inr ⟨hne, hno, ?_⟩⟩
    exact fun hnone => (hsame hnone).imp (fun h => h.trans (Advances.sameHandlers hadv))
      fun ⟨hfails, hlate⟩ => ⟨hfails, hlate.trans_le hadv.clock⟩
  · obtain ⟨-, h⟩ := hend.resolve_right fun h => h.1 (not_not.1 hrc)
    exact .ret ⟨henv, .inl ⟨rfl, h⟩⟩

theorem restoreSignalHandler_none {signal : Signal} (h : w.saved signal = none) :
    restoreSignalHandler signal w = (pure () : Cli Unit) w := by
  simp only [restoreSignalHandler, bind, Traced.bind, Traced.read, h, pure, Traced.pure,
    List.nil_append]

theorem restoreSignalHandler_some {signal : Signal} {d : Disposition} (h : w.saved signal = some d) :
    restoreSignalHandler signal w = (sigaction signal d >>= fun _ => setSaved signal none) w := by
  simp only [restoreSignalHandler, bind, Traced.bind, Traced.read, h, List.nil_append]

/-- The restored handler is the saved one, when the call succeeds. -/
theorem restoreSignalHandler_ends (w : World) (signal : Signal) :
    Ends (restoreSignalHandler signal) w fun _ w' => (w.saved signal = none ∧ w' = w) ∨
      ∃ d, w.saved signal = some d ∧
        ((w.env.sigaction w.clock = 0 ∧
            w' = (w.deliver.setDisposition signal d).tick.setSaved signal none) ∨
          (w.env.sigaction w.clock ≠ 0 ∧ w' = w.deliver.tick.setSaved signal none)) := by
  unfold Ends
  cases hsaved : w.saved signal with
  | none =>
    rw [restoreSignalHandler_none hsaved]
    exact .inl ⟨rfl, rfl⟩
  | some d =>
    rw [restoreSignalHandler_some hsaved]
    refine .inr ⟨d, rfl, ?_⟩
    rcases (sigaction_ends w signal d).2 with ⟨-, hz, hw⟩ | ⟨-, hz, hw⟩
    · exact .inl ⟨hz, congrArg (World.setSaved · signal none) hw⟩
    · exact .inr ⟨hz, congrArg (World.setSaved · signal none) hw⟩

theorem restoreSignalHandler_marks (w : World) (signal : Signal) :
    Ends (restoreSignalHandler signal) w fun _ w' =>
      w'.installedAt = w.installedAt ∧ w'.sealPollAt = w.sealPollAt := by
  refine (restoreSignalHandler_ends w signal).mono fun _ w' h => ?_
  rcases h with ⟨-, rfl⟩ | ⟨d, -, ⟨-, rfl⟩ | ⟨-, rfl⟩⟩
  · exact ⟨rfl, rfl⟩
  · cases signal <;> exact ⟨rfl, rfl⟩
  · cases signal <;> exact ⟨rfl, rfl⟩

theorem runStages_env (inv : Invocation) (manageSignals : Bool) (w : World) :
    Ends (runStages inv manageSignals) w fun _ w' => w'.env = w.env := by
  have hreset {w₁ : World} (h : w₁.env = w.env) :
      Ends (do saltCliResetInterrupted; runArguments inv) w₁ fun _ w' => w'.env = w.env :=
    Ends.bind (R := fun _ (w₂ : World) => w₂.env = w.env) h fun _ w₂ h₂ =>
      (runArguments_steady inv w₂).1.env.trans h₂
  cases manageSignals with
  | false => exact hreset rfl
  | true =>
    exact (installStage_installs w).bind fun rc w₁ ⟨h₁, _⟩ =>
      .ite (fun _ => .ret h₁) fun _ => hreset h₁

theorem restoreSignalHandler_env (w : World) (signal : Signal) :
    Ends (restoreSignalHandler signal) w fun _ w' => w'.env = w.env := by
  refine (restoreSignalHandler_ends w signal).mono fun _ w' h => ?_
  rcases h with ⟨-, rfl⟩ | ⟨d, -, ⟨-, rfl⟩ | ⟨-, rfl⟩⟩
  · rfl
  · cases signal <;> rfl
  · cases signal <;> rfl

theorem saltCliRunWithStreamsInternal_env (inv : Invocation) (nullStream manageSignals : Bool)
    (w : World) : Ends (saltCliRunWithStreamsInternal inv nullStream manageSignals) w
      fun _ w' => w'.env = w.env := by
  refine .ite (fun _ => .ret rfl) fun _ => ?_
  refine Ends.bind (R := fun _ (w₁ : World) => w₁.env = w.env) rfl fun _ w₁ h₁ => ?_
  refine (runStages_env inv manageSignals w₁).bind fun rc w₂ h₂ => ?_
  have hclean (w : World) : Ends saltCliStateCleanup w fun _ w' => w'.env = w.env :=
    (saltCliStateCleanup_settled w).1.advances.env
  refine Ends.bind (R := fun _ (w₃ : World) => w₃.env = w₂.env) (.ite (fun _ => ?_) fun _ => hclean w₂)
    fun _ w₃ h₃ => .ret (h₃.trans (h₂.trans h₁))
  have hrestore : Ends saltCliRestoreSignalHandlers w₂ fun _ w' => w'.env = w₂.env :=
    (restoreSignalHandler_env w₂ .sigint).bind fun _ w₃ h₃ =>
      (restoreSignalHandler_env w₃ .sigterm).mono fun _ _ h₄ => h₄.trans h₃
  exact hrestore.bind fun _ w₃ h₃ => (hclean w₃).mono fun _ _ h₄ => h₄.trans h₃

/-- The cleanup does not touch the recorded clocks. -/
theorem cleanupRun_marks (w : World) : Ends (cleanupRun true) w fun _ w' =>
    w'.installedAt = w.installedAt ∧ w'.sealPollAt = w.sealPollAt := by
  have hrestore : Ends saltCliRestoreSignalHandlers w fun _ w' =>
      w'.installedAt = w.installedAt ∧ w'.sealPollAt = w.sealPollAt :=
    (restoreSignalHandler_marks w .sigint).bind fun _ w₁ ⟨hi, hp⟩ =>
      (restoreSignalHandler_marks w₁ .sigterm).mono fun _ w₂ ⟨hi', hp'⟩ =>
        ⟨hi'.trans hi, hp'.trans hp⟩
  refine hrestore.bind fun _ w₁ ⟨hi, hp⟩ => ?_
  have h : Settles w₁ (saltCliStateCleanup w₁).final := (saltCliStateCleanup_settled w₁).1
  exact ⟨h.advances.installedAt.trans hi, h.sealPollAt.trans hp⟩

end Handlers

end Salt.HandlerSpan
