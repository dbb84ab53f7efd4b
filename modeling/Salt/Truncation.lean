import Salt.FailStop
import Salt.OutputFate

set_option autoImplicit false

/-!
# Faults cut the output short and never change it

Beside the run without faults, the output stream takes the same bytes as far
as it gets: a stage that a fault stops has written a beginning of its text,
and nothing comes behind it.
-/
namespace Salt.Truncation
open ByteStrings TracedState StreamFacts Framing FaultShadows FailStop OutputFate

/-- The program only adds to the output, and without faults it adds at least as much. -/
structure Truncated {α : Type} (m : Cli α) : Prop where
  grows : ∀ w, accepted w.out <+: accepted (m w).final.out
  cut : ∀ w, accepted (m w).final.out <+: accepted (m (faultless w)).final.out

def Mute {α : Type} (m : Cli α) : Prop := ∀ w, (m w).final.out = w.out

section Rules
variable {α β : Type} {shows : α → SaltStatus → Prop} {m n : Cli α} {f : α → Cli β}

theorem mute_of_quiet (hm : Quiet m) : Mute m := fun w => hm.out_eq w

theorem Mute.ret (a : α) : Mute (pure a : Cli α) := fun _ => rfl

theorem Mute.bind (hm : Mute m) (hf : ∀ a, Mute (f a)) : Mute (m >>= f) := fun w => by
  rw [bind_final, hf, hm]

theorem Mute.ite {c : Prop} [Decidable c] (hm : Mute m) (hn : Mute n) :
    Mute (if c then m else n) := by
  split_ifs <;> assumption

theorem Mute.truncated (hm : Mute m) : Truncated m where
  grows w := (hm w).symm ▸ List.prefix_rfl
  cut w := by
    rw [hm w, hm (faultless w)]
    exact List.prefix_rfl

theorem Truncated.ite {c : Prop} [Decidable c] (hm : Truncated m) (hn : Truncated n) :
    Truncated (if c then m else n) := by
  split_ifs <;> assumption

/-- A program that goes along with its shadow until a fault makes the rest of it mute. -/
theorem Truncated.bind (hb : Beside shows m) (hm : Truncated m) (hf : ∀ a, Truncated (f a))
    (hleft : ∀ a rc, shows a rc → rc ≠ .ok → Mute (f a)) : Truncated (m >>= f) where
  grows w := (hm.grows w).trans ((hf _).grows _)
  cut w := by
    rcases hb.shadow w with ⟨hv, hw⟩ | ⟨rc, hshows, hblamed⟩
    · simp only [bind_final, hv, hw]
      exact (hf _).cut _
    · rw [bind_final, hleft _ rc hshows hblamed.ne_ok]
      exact (hm.cut w).trans ((hf _).grows _)

theorem Truncated.then (hm : Plain m) (hmute : Mute m) (hf : ∀ a, Truncated (f a)) :
    Truncated (m >>= f) :=
  have hb : Beside (fun _ _ => False) m := hm.beside
  .bind hb hmute.truncated hf fun _ _ h => h.elim

theorem Truncated.finally (hm : Truncated m) (hf : ∀ a, Mute (f a)) : Truncated (m >>= f) where
  grows w := by
    rw [bind_final, hf]
    exact hm.grows w
  cut w := by
    rw [bind_final, bind_final, hf, hf]
    exact hm.cut w

/-- `if (rc != SALT_OK) return rc;` -/
theorem Truncated.andThen {m n : Cli SaltStatus} (hb : Beside Eq m) (hm : Truncated m)
    (hn : Truncated n) : Truncated (do
      let rc ← m
      if rc ≠ .ok then return rc else n) :=
  .bind hb hm (fun _ => .ite (Mute.ret _).truncated hn) fun _ _ h hne => by
    subst h
    rw [if_pos hne]
    exact .ret _

/-- `if (rc != SALT_OK) return SALT_ERR_IO;` -/
theorem Truncated.ioThen {m n : Cli SaltStatus} (hb : Beside IoStatus m) (hm : Truncated m)
    (hn : Truncated n) : Truncated (do
      let rc ← m
      if rc ≠ .ok then return .errIo else n) :=
  .bind hb hm (fun _ => .ite (Mute.ret _).truncated hn) fun _ _ h hne => by
    rw [if_pos (h.1 ▸ hne)]
    exact .ret _

end Rules

theorem vfprintf_out_truncated (data : Bytes) : Truncated (vfprintf .out data) where
  grows w := by
    obtain ⟨n, hn, -⟩ := write_accepted data w.out
    exact ⟨_, hn.symm⟩
  cut w := by
    obtain ⟨n, hn, -⟩ := write_accepted data w.out
    obtain ⟨k, hk, hall⟩ := write_accepted data (faultlessOut w.out)
    have hwhole := hall (write_of_accepts data (faultlessOut_accepts w.out))
    change accepted (w.out.write data).2 <+: accepted ((faultlessOut w.out).write data).2
    rw [hn, hk, hwhole]
    exact List.prefix_append_right_inj _ |>.2 (List.take_prefix n data)

theorem fflush_out_truncated : Truncated (fflush .out) where
  grows w := ⟨[], (List.append_nil _).trans (flush_accepted w.out).symm⟩
  cut w := by
    change accepted w.out.flush.2 <+: accepted (faultlessOut w.out).flush.2
    rw [flush_accepted, flush_accepted]
    exact List.prefix_rfl

theorem saltCliSetError_mute (useError : Bool) (message : Bytes) (rc : SaltStatus) :
    Mute (saltCliSetError useError message rc) :=
  mute_of_quiet (saltCliSetError_internal ..).quiet

theorem cliStreamWrite_truncated (data : Bytes) : Truncated (cliStreamWrite data) :=
  .finally (vfprintf_out_truncated data) fun _ => .ite (fun _ => rfl) (.ret _)

theorem cliStreamFlush_truncated : Truncated cliStreamFlush :=
  .finally fflush_out_truncated fun _ => .bind (fun _ => rfl) fun _ => .ite (fun _ => rfl) (.ret _)

theorem writeJsonByte_truncated (c : UInt8) : Truncated (writeJsonByte c) :=
  .ite (.ioThen (cliStreamWrite_beside _) (cliStreamWrite_truncated _) (cliStreamWrite_truncated _))
    (.ite (cliStreamWrite_truncated _) (.ite (cliStreamWrite_truncated _)
      (.ite (cliStreamWrite_truncated _) (.ite (cliStreamWrite_truncated _)
        (cliStreamWrite_truncated _)))))

theorem writeJsonBytes_truncated (bytes : Bytes) : Truncated (writeJsonBytes bytes) := by
  induction bytes with
  | nil => exact cliStreamWrite_truncated _
  | cons c cursor ih => exact .ioThen (writeJsonByte_beside c) (writeJsonByte_truncated c) ih

theorem writeJsonString_truncated (value : CString) : Truncated (writeJsonString value) :=
  .ioThen (cliStreamWrite_beside _) (cliStreamWrite_truncated _) (writeJsonBytes_truncated _)

theorem emitText_truncated (value : CString) : Truncated (emitText value) :=
  .ioThen (cliStreamWrite_beside _) (cliStreamWrite_truncated _) cliStreamFlush_truncated

theorem writeAll_truncated {writes : List (Cli SaltStatus)}
    (h : ∀ m ∈ writes, Beside IoStatus m ∧ Truncated m) : Truncated (writeAll writes) := by
  induction writes with
  | nil => exact (Mute.ret _).truncated
  | cons m writes ih =>
    obtain ⟨hb, hm⟩ := h m List.mem_cons_self
    exact .ioThen hb hm (ih fun m' hm' => h m' (List.mem_cons_of_mem _ hm'))

theorem emitJson_truncated (value keyId : CString) : Truncated (emitJson value keyId) := by
  have hput (data : Bytes) : Beside IoStatus (cliStreamWrite data) ∧ Truncated (cliStreamWrite data) :=
    ⟨cliStreamWrite_beside data, cliStreamWrite_truncated data⟩
  have hstring (s : CString) : Beside IoStatus (writeJsonString s) ∧ Truncated (writeJsonString s) :=
    ⟨writeJsonString_beside s, writeJsonString_truncated s⟩
  have hwrites : ∀ m ∈ [cliStreamPutc 123, cliStreamPuts (ascii "\"encrypted_value\":"),
      writeJsonString value, cliStreamPuts (ascii ",\"key_id\":"), writeJsonString keyId,
      cliStreamPuts [125, 10]], Beside IoStatus m ∧ Truncated m := by
    intro m hm
    simp only [List.mem_cons, List.not_mem_nil, or_false] at hm
    rcases hm with rfl | rfl | rfl | rfl | rfl | rfl
    · exact hput _
    · exact hput _
    · exact hstring value
    · exact hput _
    · exact hstring keyId
    · exact hput _
  exact .ioThen (writeAll_beside fun m hm => (hwrites m hm).1) (writeAll_truncated hwrites)
    cliStreamFlush_truncated

theorem emitError_truncated (message : Bytes) : Truncated (emitError message) :=
  (mute_of_quiet (emitError_quiet message)).truncated

theorem saltCliEmitOutput_truncated (mode : OutputMode) (value : CString) (keyId : Option CString) :
    Truncated (saltCliEmitOutput mode value keyId) := by
  refine .ite (emitText_truncated value) ?_
  cases keyId with
  | none => exact emitError_truncated _
  | some keyId =>
    exact .ite (emitError_truncated _) (.ite (emitError_truncated _) (emitJson_truncated value keyId))

theorem reportOrIo_mute (rc : SaltStatus) : Mute (reportOrIo rc) :=
  mute_of_quiet (reportOrIo_internal rc).quiet

theorem emitStage_truncated : Truncated emitStage :=
  .then getState_plain (fun _ => rfl) fun _ => .then (.read fun _ => rfl) (fun _ => rfl) fun _ =>
    .finally (saltCliEmitOutput_truncated ..) fun rc => by
      split_ifs
      · exact reportOrIo_mute rc
      · exact .ret _

theorem internal_truncated {α : Type} {m : Cli α} (hm : Internal m) : Truncated m :=
  (mute_of_quiet hm.quiet).truncated

theorem encryptStages_truncated : Truncated encryptStages :=
  .andThen saltCliInputLoadKeyInput_beside (internal_truncated saltCliInputLoadKeyInput_internal)
    (.andThen saltCliInputLoadPlaintext_beside (internal_truncated saltCliInputLoadPlaintext_internal)
      (.andThen saltCliPrepareOutput_beside (internal_truncated saltCliPrepareOutput_internal)
        emitStage_truncated))

theorem saltCliFlushStream_truncated (useError : Bool) (message : Bytes) :
    Truncated (saltCliFlushStream .out useError message) :=
  .finally fflush_out_truncated fun _ => .ite (saltCliSetError_mute useError message .errIo) (.ret _)

theorem saltCliWriteStream_truncated (useError : Bool) (message text : Bytes) :
    Truncated (saltCliWriteStream .out useError message text) := by
  refine .bind (vfprintf_beside .out text) (vfprintf_out_truncated text)
    (fun _ => .ite (saltCliSetError_mute _ _ _).truncated (saltCliFlushStream_truncated ..)) ?_
  rintro _ _ ⟨rfl, rfl⟩ _
  exact saltCliSetError_mute useError message .errIo

theorem dispatchOptions_truncated (inv : Invocation) : Truncated (dispatchOptions inv) :=
  .then getState_plain (fun _ => rfl) fun _ => .ite (saltCliWriteStream_truncated ..)
    (.ite (.then (.read fun _ => rfl) (fun _ => rfl) fun _ => saltCliWriteStream_truncated ..)
      (internal_truncated (checkOptions_internal inv)))

theorem saltCliArgsParseArguments_truncated (inv : Invocation) :
    Truncated (saltCliArgsParseArguments inv) :=
  .andThen (handleOptions_beside _) (internal_truncated (handleOptions_internal _))
    (dispatchOptions_truncated inv)

theorem finishArguments_mute (s : CliState) (rc : SaltStatus) : Mute (finishArguments s rc) :=
  mute_of_quiet (finishArguments_internal s rc).quiet

theorem runArguments_truncated (inv : Invocation) : Truncated (runArguments inv) := by
  refine .bind (saltCliArgsParseArguments_beside inv) (saltCliArgsParseArguments_truncated inv)
    (fun rc => .then getState_plain (fun _ => rfl) fun s =>
      .ite (finishArguments_mute s rc).truncated encryptStages_truncated) ?_
  intro rc _ h hne
  subst h
  refine .bind (fun _ => rfl) fun s => ?_
  rw [if_pos (by simp [hne])]
  exact finishArguments_mute s rc

theorem runStages_truncated (inv : Invocation) (manageSignals : Bool) :
    Truncated (runStages inv manageSignals) :=
  .andThen ((installStage_io manageSignals).mono fun _ _ h => h.1)
    (mute_of_quiet (installStage_quiet manageSignals)).truncated
    (.then saltCliResetInterrupted_plain (fun _ => rfl) fun _ => runArguments_truncated inv)

/-- Whatever allocations fail, signals arrive and streams break, what a run puts to the output stream
is a beginning of what the run puts to it without these faults. -/
theorem saltCliRunWithStreamsInternal_truncates (inv : Invocation) (nullStream manageSignals : Bool)
    (w : World) :
    accepted (saltCliRunWithStreamsInternal inv nullStream manageSignals w).final.out <+:
      accepted (saltCliRunWithStreamsInternal inv nullStream manageSignals (faultless w)).final.out := by
  have hrun : Truncated (saltCliRunWithStreamsInternal inv nullStream manageSignals) :=
    .ite (Mute.ret _).truncated (.then saltCliStateInit_plain
      (mute_of_quiet saltCliStateInit_internal.quiet) fun _ =>
        .finally (runStages_truncated inv manageSignals) fun _ =>
          .bind (mute_of_quiet (cleanupRun_quiet manageSignals)) fun _ => .ret _)
  exact hrun.cut w

end Salt.Truncation
