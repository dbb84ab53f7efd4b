import Salt.FaultShadows
import Salt.HeldBuffers
import Salt.RunCorrect

set_option autoImplicit false

/-!
# Faults stop a run and are named

Every stage goes along with its shadow or ends in a status that says which
fault kept it from that; so does the whole run.
-/
namespace Salt.FailStop
open ByteStrings BlockHeap TracedState Sealing StreamFacts Tracking Ownership RunCorrect FaultShadows
open HeldBuffers

section Sequence
variable {m n : Cli SaltStatus}

/-- `if (rc != SALT_OK) return rc;` -/
theorem andThen (hm : Beside Eq m) (hn : Beside Eq n) : Beside Eq (do
    let rc ← m
    if rc ≠ .ok then return rc else n) :=
  hm.bind (fun _ => .ite (Plain.ret _).beside hn) fun _ _ h hne => .stopped (h ▸ hne) (.ret h)

/-- `if (rc != SALT_OK) return salt_cli_report_state_error(..);` -/
theorem orReport (hm : Beside Eq m) (hn : Beside Eq n) : Beside Eq (do
    let rc ← m
    if rc ≠ .ok then saltCliReportStateError rc else n) :=
  hm.bind (fun _ => .ite (saltCliReportStateError_beside _) hn) fun _ _ h hne => by
    subst h
    exact .stopped hne (saltCliReportStateError_passes _)

end Sequence

theorem cliInputReadStreamLimited_beside (maxLen : ℕ) :
    Beside ReadStatus (cliInputReadStreamLimited maxLen) := by
  refine (Plain.read fun _ => rfl).then fun width => .ite
    ((saltCliSetError_plain ..).bind fun _ => .ret _).beside
    (saltCliCheckInterrupted_beside.bind (fun _ => .ite (Plain.ret _).beside
      ((saltCliAllocImpl_beside _).bind (fun buffer => ?_) ?_)) ?_)
  · cases buffer with
    | none => exact ((saltCliSetError_plain ..).bind fun _ => .ret _).beside
    | some buffer => exact fillBuffer_beside ..
  · rintro _ _ ⟨rfl, rfl⟩ _
    exact fun w => ⟨.errInternal, rfl, .inl rfl⟩
  · rintro _ _ ⟨rfl, rfl⟩ hne
    exact .stopped hne (.ret rfl)

theorem saltCliLoadPlaintextFromArgv_beside (plaintextArg : ℕ) :
    Beside Eq (saltCliLoadPlaintextFromArgv plaintextArg) := by
  refine (Plain.read fun _ => rfl).then fun source => (Plain.read fun _ => rfl).then fun width => ?_
  cases cliBoundedStrlen source (saltGithubSecretMaxValueLen + 1) with
  | none => exact (undefinedBehaviour_plain.bind fun _ => .ret _).beside
  | some argLen =>
    refine .ite (saltCliReportStreamStatus_beside ..) (.ite (saltCliReportStreamStatus_beside ..)
      ((modifyState_plain _).then fun _ => (saltCliAllocImpl_beside _).bind (fun copy => ?_) ?_))
    · cases copy with
      | none => exact saltCliReportStreamStatus_beside ..
      | some copy =>
        exact ((modifyState_plain _).bind fun _ => (sodiumMlock_plain _).bind fun _ =>
          (editBlock_plain ..).bind fun _ => (scrubPositional_plain ..).bind fun _ =>
            (modifyState_plain _).bind fun _ => .ret _).beside
    · rintro _ _ ⟨rfl, rfl⟩ _
      exact saltCliReportStreamStatus_passes _ _ _

theorem loadKeyFromStdin_beside : Beside Eq loadKeyFromStdin := by
  refine (cliInputReadStreamLimited_beside _).bind (fun r => ?_) ?_
  · obtain ⟨rc, _ | ⟨stdinKey, keyLen⟩⟩ := r
    · exact saltCliReportStateError_beside rc
    · exact (modifyState_plain _).then fun _ => (editBlock_plain ..).then fun _ =>
        (readByte_plain ..).then fun _ => .ite (saltCliReportStreamStatus_beside ..)
          ((modifyState_plain _).bind fun _ => .ret _).beside
  · rintro _ rc rfl _
    exact saltCliReportStateError_passes rc

theorem copyKeyOption_beside : Beside Eq copyKeyOption := by
  refine getState_plain.then fun s => (Plain.read fun _ => ?_).then fun source => ?_
  · cases s.keyOption with
    | none => rfl
    | some ref => cases ref <;> rfl
  cases cliBoundedStrlen source (saltMaxKeyInputLen + 1) with
  | none => exact (undefinedBehaviour_plain.bind fun _ => .ret _).beside
  | some keyCopyLen =>
    refine .ite (saltCliReportStreamStatus_beside ..)
      ((saltCliAllocImpl_beside _).bind (fun copy => ?_) ?_)
    · cases copy with
      | none => exact saltCliReportStreamStatus_beside ..
      | some copy =>
        exact ((modifyState_plain _).bind fun _ => (sodiumMlock_plain _).bind fun _ =>
          (editBlock_plain ..).bind fun _ => (editBlock_plain ..).bind fun _ => .ret _).beside
    · rintro _ _ ⟨rfl, rfl⟩ _
      exact saltCliReportStreamStatus_passes _ _ _

theorem reportIfInterrupted_beside : Beside Eq reportIfInterrupted :=
  orReport (saltCliCheckInterrupted_beside.mono fun _ _ h => h.1) (Plain.ret _).beside

theorem saltCliInputLoadKeyInput_beside : Beside Eq saltCliInputLoadKeyInput :=
  andThen (getState_plain.then fun _ => .ite loadKeyFromStdin_beside (Plain.ret _).beside)
    (andThen copyKeyOption_beside (orReport parseKeyOfState_plain.beside reportIfInterrupted_beside))

theorem loadPlaintextFromStdin_beside : Beside Eq loadPlaintextFromStdin := by
  refine (cliInputReadStreamLimited_beside _).bind (fun r => ?_) ?_
  · obtain ⟨rc, _ | ⟨stdinPlaintext, messageLen⟩⟩ := r
    · exact saltCliReportStateError_beside rc
    · exact ((modifyState_plain _).bind fun _ => .ret _).beside
  · rintro _ rc rfl _
    exact saltCliReportStateError_passes rc

theorem saltCliInputLoadPlaintext_beside : Beside Eq saltCliInputLoadPlaintext :=
  andThen (getState_plain.then fun _ =>
      .ite loadPlaintextFromStdin_beside (saltCliLoadPlaintextFromArgv_beside _))
    (andThen reportIfInterrupted_beside (getState_plain.then fun _ =>
      .ite (saltCliReportStreamStatus_beside ..) (Plain.ret _).beside))

theorem checkSealed_beside : Beside Eq checkSealed := by
  refine (saltCliCheckInterrupted_beside.bind (fun rc => markSealPoll_plain.then fun _ =>
    .ite (saltCliReportStateError_beside _) (getState_plain.then fun _ =>
      .ite (saltCliReportStreamStatus_beside ..) (Plain.ret _).beside)) ?_)
  rintro rc _ ⟨rfl, -⟩ hne
  exact .bind markSealPoll_plain.elapsed
    (fun _ => .stopped hne (saltCliReportStateError_passes rc)) fun _ w => by
      rw [if_pos hne]
      exact (saltCliReportStateError_beside rc).related w

theorem sealIntoOutput_beside (output outputSize : ℕ) :
    Beside Eq (sealIntoOutput output outputSize) :=
  (modifyState_plain _).then fun _ => (sodiumMlock_plain _).then fun _ =>
    orReport saltCliSealImpl_beside checkSealed_beside

theorem saltCliPrepareOutput_beside : Beside Eq saltCliPrepareOutput := by
  refine (modifyState_plain _).then fun _ => (Plain.read fun _ => rfl).then fun outputSize =>
    .ite (saltCliReportStreamStatus_beside ..)
      ((saltCliAllocImpl_beside _).bind (fun output => ?_) ?_)
  · cases output with
    | none => exact saltCliReportStreamStatus_beside ..
    | some output => exact sealIntoOutput_beside ..
  · rintro _ _ ⟨rfl, rfl⟩ _
    exact saltCliReportStreamStatus_passes _ _ _

theorem cliStreamWriteError_plain (message : Bytes) : Plain (cliStreamWriteError message) :=
  (modifyState_plain _).bind fun _ => .ret _

theorem cliStreamWrite_beside (data : Bytes) : Beside IoStatus (cliStreamWrite data) := by
  refine (vfprintf_beside .out data).bind
    (fun _ => .ite (cliStreamWriteError_plain _).beside (Plain.ret _).beside) ?_
  rintro _ _ ⟨rfl, rfl⟩ _
  exact fun w => ⟨.errIo, ⟨rfl, rfl⟩, .inl rfl⟩

theorem cliStreamFlush_beside : Beside IoStatus cliStreamFlush := by
  refine (fflush_beside .out).bind (fun ok => (ferror_beside .out).bind
    (fun _ => .ite (cliStreamWriteError_plain _).beside (Plain.ret _).beside) ?_) ?_
  · rintro _ _ ⟨rfl, rfl⟩ _
    rw [Bool.or_true, if_pos rfl]
    exact fun w => ⟨.errIo, ⟨rfl, rfl⟩, .inl rfl⟩
  · rintro _ _ ⟨rfl, rfl⟩ _
    exact fun w => ⟨.errIo, ⟨rfl, rfl⟩, .inl rfl⟩

/-- `if (rc != SALT_OK) return SALT_ERR_IO;` -/
theorem ioThen {m n : Cli SaltStatus} (hm : Beside IoStatus m) (hn : Beside IoStatus n) :
    Beside IoStatus (do
      let rc ← m
      if rc ≠ .ok then return .errIo else n) :=
  hm.bind (fun _ => .ite (Plain.ret _).beside hn) fun _ _ h hne =>
    .stopped (h.1 ▸ hne) (.ret ⟨h.2.symm, h.2⟩)

theorem writeJsonByte_beside (c : UInt8) : Beside IoStatus (writeJsonByte c) :=
  .ite (ioThen (cliStreamWrite_beside _) (cliStreamWrite_beside _))
    (.ite (cliStreamWrite_beside _) (.ite (cliStreamWrite_beside _) (.ite (cliStreamWrite_beside _)
      (.ite (cliStreamWrite_beside _) (cliStreamWrite_beside _)))))

theorem writeJsonBytes_beside (bytes : Bytes) : Beside IoStatus (writeJsonBytes bytes) := by
  induction bytes with
  | nil => exact cliStreamWrite_beside _
  | cons c cursor ih => exact ioThen (writeJsonByte_beside c) ih

theorem writeJsonString_beside (value : CString) : Beside IoStatus (writeJsonString value) :=
  ioThen (cliStreamWrite_beside _) (writeJsonBytes_beside _)

theorem writeAll_beside {writes : List (Cli SaltStatus)} (h : ∀ m ∈ writes, Beside IoStatus m) :
    Beside IoStatus (writeAll writes) := by
  induction writes with
  | nil => exact (Plain.ret _).beside
  | cons m writes ih =>
    exact ioThen (h m List.mem_cons_self) (ih fun m' hm' => h m' (List.mem_cons_of_mem _ hm'))

theorem emitText_beside (value : CString) : Beside IoStatus (emitText value) :=
  ioThen (cliStreamWrite_beside _) cliStreamFlush_beside

theorem emitJson_beside (value keyId : CString) : Beside IoStatus (emitJson value keyId) := by
  refine ioThen (writeAll_beside fun m hm => ?_) cliStreamFlush_beside
  simp only [List.mem_cons, List.not_mem_nil, or_false] at hm
  rcases hm with rfl | rfl | rfl | rfl | rfl | rfl
  · exact cliStreamWrite_beside _
  · exact cliStreamWrite_beside _
  · exact writeJsonString_beside value
  · exact cliStreamWrite_beside _
  · exact writeJsonString_beside keyId
  · exact cliStreamWrite_beside _

theorem emitError_plain (message : Bytes) : Plain (emitError message) :=
  (modifyState_plain _).bind fun _ => .ret _

theorem saltCliEmitOutput_beside (mode : OutputMode) (value : CString) (keyId : Option CString) :
    Beside IoStatus (saltCliEmitOutput mode value keyId) := by
  refine .ite (emitText_beside value) ?_
  cases keyId with
  | none => exact (emitError_plain _).beside
  | some keyId =>
    exact .ite (emitError_plain _).beside (.ite (emitError_plain _).beside (emitJson_beside value keyId))

theorem emitStage_beside : Beside Eq emitStage := by
  refine getState_plain.then fun s => (Plain.read fun _ => rfl).then fun value =>
    (saltCliEmitOutput_beside ..).bind (fun _ => .ite (reportOrIo_beside _) (Plain.ret _).beside) ?_
  rintro rc _ ⟨rfl, -⟩ hne
  exact .stopped hne (reportOrIo_passes rc)

theorem encryptStages_beside : Beside Eq encryptStages :=
  andThen saltCliInputLoadKeyInput_beside (andThen saltCliInputLoadPlaintext_beside
    (andThen saltCliPrepareOutput_beside emitStage_beside))

theorem saltCliHandleOption_beside (event : OptEvent) : Beside Eq (saltCliHandleOption event) := by
  refine getState_plain.then fun s => ?_
  cases handleOption s event with
  | ok s => exact ((modifyState_plain _).bind fun _ => .ret _).beside
  | error text => exact saltCliReportStreamStatus_beside ..

theorem handleOptions_beside (events : List OptEvent) : Beside Eq (handleOptions events) := by
  induction events with
  | nil => exact (Plain.ret _).beside
  | cons event rest ih => exact andThen (saltCliHandleOption_beside event) ih

theorem printUsage_beside (stream : Sink) (program : CString) :
    Beside IoStatus (printUsage stream program) := saltCliWriteStream_beside ..

theorem reportWithUsage_beside (program : CString) (text : Bytes) :
    Beside Eq (reportWithUsage program text) := by
  refine (saltCliReportStreamStatus_io ..).bind (fun _ => .ite (Plain.ret _).beside
    ((printUsage_beside _ _).bind (fun _ => .ite (Plain.ret _).beside (Plain.ret _).beside) ?_)) ?_
  · rintro _ _ ⟨rfl, rfl⟩ _
    exact fun w => ⟨.errIo, rfl, .inl rfl⟩
  · rintro _ _ ⟨rfl, rfl⟩ _
    exact fun w => ⟨.errIo, rfl, .inl rfl⟩

theorem checkOptions_beside (inv : Invocation) : Beside Eq (checkOptions inv) :=
  getState_plain.then fun _ => .ite (reportWithUsage_beside ..)
    (.ite (saltCliReportStreamStatus_beside ..) (.ite (saltCliReportStreamStatus_beside ..)
      (.ite ((modifyState_plain _).then fun _ => reportWithUsage_beside ..)
        ((modifyState_plain _).then fun _ => getState_plain.then fun _ =>
          .ite (saltCliReportStreamStatus_beside ..) (Plain.ret _).beside))))

theorem dispatchOptions_beside (inv : Invocation) : Beside Eq (dispatchOptions inv) :=
  getState_plain.then fun _ => .ite ((printUsage_beside _ _).mono fun _ _ h => h.1)
    (.ite ((Plain.read fun _ => rfl).then fun _ => (saltCliWriteStream_beside ..).mono fun _ _ h => h.1)
      (checkOptions_beside inv))

theorem saltCliArgsParseArguments_beside (inv : Invocation) :
    Beside Eq (saltCliArgsParseArguments inv) :=
  andThen (handleOptions_beside _) (dispatchOptions_beside inv)

theorem sigaction_plain (signal : Signal) (d : Disposition) : Plain (sigaction signal d) := by
  refine .atomic (fun w => ?_) fun w => ?_
  · have henv : (faultless w).env.sigaction (faultless w).clock = w.env.sigaction w.clock := rfl
    rw [henv]
    by_cases hz : w.env.sigaction w.clock = 0
    · simp only [hz, if_true]
      cases signal <;> rfl
    · simp only [if_neg hz]
      cases signal <;> rfl
  · by_cases hz : w.env.sigaction w.clock = 0
    · simp only [hz, if_true]
      cases signal <;> rfl
    · simp only [if_neg hz]

theorem setSaved_plain (signal : Signal) (d : Option Disposition) : Plain (setSaved signal d) := by
  refine .update (fun w => ?_) fun w => ?_ <;> cases signal <;> rfl

theorem saltCliEnsureSignalHandlers_plain : Plain saltCliEnsureSignalHandlers :=
  .bind (.atomic (fun _ => rfl) fun _ => rfl) fun _ => .ite (.ret _)
    ((sigaction_plain _ _).bind fun _ => .ite (.ret _)
      ((setSaved_plain _ _).bind fun _ => (sigaction_plain _ _).bind fun _ =>
        .ite ((sigaction_plain _ _).bind fun _ => (setSaved_plain _ _).bind fun _ => .ret _)
          ((setSaved_plain _ _).bind fun _ => .bind (.update (fun _ => rfl) fun _ => rfl)
            fun _ => .ret _)))

theorem restoreSignalHandler_plain (signal : Signal) : Plain (restoreSignalHandler signal) := by
  refine .bind (.read fun w => by cases signal <;> rfl) fun saved => ?_
  cases saved with
  | none => exact .ret _
  | some d => exact (sigaction_plain _ _).bind fun _ => setSaved_plain _ _

theorem saltCliStateInit_plain : Plain saltCliStateInit :=
  (modifyState_plain _).bind fun _ => (modifyState_plain _).bind fun _ =>
    (sodiumMlock_plain _).bind fun _ => (sodiumMlock_plain _).bind fun _ =>
      (sodiumMlock_plain _).bind fun _ => modifyState_plain _

theorem saltCliSecureFreeRegion_plain (id : Option ℕ) (len : ℕ) :
    Plain (saltCliSecureFreeRegion id len) := by
  cases id with
  | none => exact .ret _
  | some id =>
    exact .bind (.ite (.ret _) ((sodiumMunlock_plain ..).bind fun _ =>
      .ite (sodiumMemzero_plain ..) (.ret _))) fun _ => saltCliFreeImpl_plain id

theorem unlockFixedBuffer_plain (buffer : FixedBuffer) : Plain (unlockFixedBuffer buffer) :=
  .bind (.atomic (fun _ => rfl) fun _ => rfl) fun _ => .ite (modifyState_plain _) (.ret _)

theorem saltCliStateCleanup_plain : Plain saltCliStateCleanup :=
  getState_plain.bind fun _ => (saltCliSecureFreeRegion_plain ..).bind fun _ =>
    (saltCliSecureFreeRegion_plain ..).bind fun _ =>
    (saltCliSecureFreeRegion_plain ..).bind fun _ =>
    (saltCliSecureFreeRegion_plain ..).bind fun _ =>
    (saltCliSecureFreeRegion_plain ..).bind fun _ =>
    .bind (.ite ((unlockFixedBuffer_plain _).bind fun _ => (unlockFixedBuffer_plain _).bind
      fun _ => unlockFixedBuffer_plain _) (.ret _)) fun _ => modifyState_plain _

theorem cleanupRun_plain (manageSignals : Bool) : Plain (cleanupRun manageSignals) :=
  .ite (.bind ((restoreSignalHandler_plain _).bind fun _ => restoreSignalHandler_plain _)
    fun _ => saltCliStateCleanup_plain) saltCliStateCleanup_plain

theorem installStage_io (manageSignals : Bool) : Beside IoStatus (installStage manageSignals) :=
  .ite (saltCliEnsureSignalHandlers_plain.then fun _ =>
    .ite ((saltCliSetError_plain ..).then fun _ => reportOrIo_io _) (Plain.ret _).beside)
    (Plain.ret _).beside

/-- All of a world but the error stream, the clock, the flag and the handlers. -/
def remains (w : World) :
    (Env × CliState × Heap × List Bytes) × (InStream × OutStream) ×
      (Option ℕ × Option ℕ × Option ℕ) × List LibraryCall × Bool :=
  ((w.env, w.state, w.heap, w.positionals), (w.input, w.out),
    (w.installedAt, w.clearedAt, w.sealPollAt), w.calls, w.undefined)

def Alike (s t : World) : Prop := remains t = remains s

/-- From `w` to `w'` a report got lost, and that is all that keeps `w'` from the end of the run
without faults. -/
structure Lost (w w' calm : World) : Prop where
  refused : Refused w.err w'.err
  same : remains calm = remains (faultless w')
  bare : Bare w'

/-- The program comes to the status of its shadow, and to its end unless a report gets lost; or its
status says which fault since `u` kept it from that. -/
structure Answers (m : Cli SaltStatus) (u w : World) : Prop where
  begun : Later u w
  elapsed : Elapsed w (m w).final
  answer : ((m (faultless w)).value = (m w).value ∧
      ((m (faultless w)).final = faultless (m w).final ∨
        (m w).value ≠ .ok ∧ Lost w (m w).final (m (faultless w)).final)) ∨
    Blamed (m w).value u (m w).final

section Answering
variable {α : Type} {m : Cli SaltStatus} {u u₁ w : World}

theorem Lost.across {w₁ w' calm : World} (h : Lost w₁ w' calm) (hw : Elapsed w w₁) :
    Lost w w' calm :=
  ⟨h.refused.across (hw.sink .err) le_rfl, h.same, h.bare⟩

theorem Answers.of_beside (hm : Beside Eq m) (w : World) : Answers m w w where
  begun := (Elapsed.refl w).later
  elapsed := hm.related w
  answer := (hm.shadow w).imp (fun h => ⟨h.1, .inl h.2⟩) fun ⟨_, h, hblamed⟩ => h ▸ hblamed

theorem Answers.later (h : Answers m u w) : Later u (m w).final := h.begun.trans h.elapsed.later

theorem Answers.then {k : Cli α} {f : α → Cli SaltStatus} (hk : Plain k) (hbegun : Later u w)
    (hu : Elapsed u u₁) (hf : Answers (f (k w).value) u₁ (k w).final) : Answers (k >>= f) u w where
  begun := hbegun
  elapsed := (hk.elapsed w).trans hf.elapsed
  answer := by
    obtain ⟨hv, hw⟩ := hk.commutes w
    simp only [bind_value, bind_final, hv, hw]
    exact hf.answer.imp (fun ⟨hvalue, hend⟩ => ⟨hvalue, hend.imp_right fun ⟨hne, h⟩ =>
      ⟨hne, h.across (hk.elapsed w)⟩⟩) fun h => h.before hu hf.later

/-- A stage in front: its status is passed on by what is behind it. -/
theorem Answers.bind {f : SaltStatus → Cli SaltStatus} (hm : Beside Eq m)
    (hf : Answers (f (m w).value) (m w).final (m w).final)
    (hleft : ∀ rc, rc ≠ .ok → Passes Eq rc (f rc)) : Answers (m >>= f) w w where
  begun := (Elapsed.refl w).later
  elapsed := (hm.related w).trans hf.elapsed
  answer := by
    rcases hm.shadow w with ⟨hv, hw⟩ | ⟨rc, hrc, hblamed⟩
    · simp only [bind_value, bind_final, hv, hw]
      exact hf.answer.imp (fun ⟨hvalue, hend⟩ => ⟨hvalue, hend.imp_right fun ⟨hne, h⟩ =>
        ⟨hne, h.across (hm.related w)⟩⟩) fun h => h.before (hm.related w) hf.later
    · obtain ⟨_, rfl, hrc' | hblamed'⟩ := hleft _ (hrc ▸ hblamed.ne_ok) (m w).final
      · refine .inr (?_ : Blamed (f (m w).value (m w).final).value _ _)
        rw [hrc', hrc]
        exact hblamed.behind (hm.related w).later hf.later
      · exact .inr (hblamed'.before (hm.related w) hf.later)

/-- The end depends on nothing a lost report changes. -/
def Heedless (k : Cli α) : Prop :=
  ∀ s t, Bare s → remains t = remains s →
    Bare (k s).final ∧ remains (k t).final = remains (k s).final

theorem Answers.finally {k : Cli α} (hm : Answers m u w) (hk : Plain k) (hheedless : Heedless k) :
    Answers (do
    let rc ← m
    let _ ← k
    return rc) u w where
  begun := hm.begun
  elapsed := hm.elapsed.trans (hk.elapsed (m w).final)
  answer := by
    have hend := hk.elapsed (m w).final
    simp only [bind_value, bind_final, pure_value, pure_final]
    rcases hm.answer with ⟨hvalue, hfinal | ⟨hne, hlost⟩⟩ | hblamed
    · refine .inl ⟨hvalue, .inl ?_⟩
      rw [hfinal]
      exact (hk.commutes _).2
    · have hbare : Bare (faultless (m w).final) := ⟨hlost.bare.held, hlost.bare.parsedKeyB64⟩
      refine .inl ⟨hvalue, .inr ⟨hne, ?_, ?_, (hheedless _ _ hlost.bare rfl).1⟩⟩
      · exact hlost.refused.across (.refl _) (hend.sink .err).ops
      · rw [← (hk.commutes _).2]
        exact (hheedless _ _ hbare hlost.same).2
    · exact .inr (hblamed.behind hm.later hend.later)

theorem remains_faultless {s t : World} (h : remains s = remains t) :
    remains (faultless s) = remains (faultless t) := by
  simp only [remains, Prod.mk.injEq] at h
  obtain ⟨⟨henv, hstate, hheap, hpositionals⟩, ⟨hinput, hout⟩, hmarks, hcalls⟩ := h
  simp only [remains, faultless, henv, hstate, hheap, hpositionals, hinput, hout, hmarks, hcalls]

theorem alike_refl (w : World) : Alike w w := rfl

theorem alike_trans (r s t : World) (h : Alike r s) (h' : Alike s t) : Alike r t := h'.trans h

theorem writeStateError_alike : Through Alike writeStateError := by
  have hset (message : Bytes) : Through Alike (saltCliSetError false message .errIo) :=
    .bind alike_trans (.step fun _ => rfl) fun _ => .ret alike_refl _
  have hflush : Through Alike (fflush .err) := .step fun _ => rfl
  refine .bind alike_trans (.read alike_refl _) fun s =>
    .bind alike_trans (.step fun _ => rfl) fun sent => ?_
  cases sent with
  | false => exact hset _
  | true =>
    refine .bind alike_trans hflush fun flushed => ?_
    cases flushed with
    | false => exact hset _
    | true => exact .ret alike_refl _

/-- The report behind a bad option that follows help or version is not looked at again. -/
theorem finishArguments_answers (s : CliState) (rc : SaltStatus) (hbare : Bare w) :
    Answers (finishArguments s rc) w w := by
  unfold finishArguments
  split_ifs with hreport
  · have hne : rc ≠ .ok := of_decide_eq_true (Bool.and_eq_true_iff.1 hreport).2
    refine ⟨(Elapsed.refl w).later, writeStateError_beside.related w, .inl ⟨rfl, ?_⟩⟩
    rcases (saltCliWriteStream_shadowed .err false (ascii "failed to write diagnostic")
      (stateErrorText w.state)).shadow w with ⟨-, hfinal⟩ | ⟨-, hrefused⟩
    · exact .inl hfinal
    · refine .inr ⟨hne, hrefused, ?_, hbare.idle (writeStateError_idle.bind fun _ => .ret rc)⟩
      exact (writeStateError_alike _).1.trans (remains_faultless (writeStateError_alike w).1).symm
  · exact .of_beside (Plain.ret rc).beside w

theorem finishArguments_ends (s : CliState) (rc : SaltStatus) (w : World) :
    (finishArguments s rc w).value = rc := by
  unfold finishArguments
  split_ifs <;> rfl

theorem runArguments_answers (inv : Invocation) (hbare : Bare w) : Answers (runArguments inv) w w := by
  refine .bind (saltCliArgsParseArguments_beside inv)
    (.then getState_plain (Elapsed.refl _).later (.refl _) ?_) ?_
  · split_ifs with hstop
    · exact finishArguments_answers _ _ (hbare.idle (saltCliArgsParseArguments_idle inv))
    · exact .of_beside encryptStages_beside _
  · intro rc hrc w
    refine .bind_read (a := w.state) rfl ?_
    rw [if_pos (by simp [hrc])]
    exact ⟨rc, finishArguments_ends w.state rc w, .inl rfl⟩

theorem saltCliResetInterrupted_plain : Plain saltCliResetInterrupted where
  commutes := .step fun _ => rfl
  elapsed w := elapsed_atomic (fun _ => rfl)
    { Elapsed.refl w.deliver with
      interrupted := fun hflag => Bool.noConfusion hflag
      sink := fun sink => by cases sink <;> exact .refl _ }

theorem lowered_io {w' : World} (h : Blamed .errIo w w') : Blamed .errIo (lowered w) w' := by
  cases h with
  | input h => exact .input h
  | output sink h => exact .output sink (by cases sink <;> exact h)

/-- A stage that knows no signal, in front of one that counts them from its own start. -/
theorem Answers.behindIo {n : Cli SaltStatus} (hm : Beside IoStatus m)
    (hn : Answers n (lowered w) (m w).final) : Answers (do
      let rc ← m
      if rc ≠ .ok then return rc else n) (lowered w) w := by
  have helapsed := hm.related w
  by_cases hrc : (m w).value = .ok
  · refine ⟨lowered_later w, ?_, ?_⟩
    · simp only [bind_final, hrc, ne_eq, not_true_eq_false, if_false]
      exact helapsed.trans hn.elapsed
    · rcases hm.shadow w with ⟨hv, hw⟩ | ⟨rc, ⟨h, -⟩, hblamed⟩
      · simp only [bind_value, bind_final, hv, hw, hrc, ne_eq, not_true_eq_false, if_false]
        exact hn.answer.imp_left fun ⟨hvalue, hend⟩ => ⟨hvalue, hend.imp_right fun ⟨hne, h⟩ =>
          ⟨hne, h.across helapsed⟩⟩
      · exact absurd hrc (h ▸ hblamed.ne_ok)
  · refine ⟨lowered_later w, ?_, ?_⟩
    · simp only [bind_final, ne_eq, hrc, not_false_eq_true, if_true]
      exact helapsed
    · rcases hm.shadow w with ⟨hv, hw⟩ | ⟨rc, ⟨h, hio⟩, hblamed⟩
      · simp only [bind_value, bind_final, hv, hw, ne_eq, hrc, not_false_eq_true, if_true]
        exact .inl ⟨rfl, .inl rfl⟩
      · simp only [bind_value, bind_final, ne_eq, hrc, not_false_eq_true, if_true]
        exact .inr (h ▸ hio ▸ lowered_io (hio ▸ hblamed))

theorem runStages_answers (inv : Invocation) (manageSignals : Bool) (hbare : Bare w) :
    Answers (runStages inv manageSignals) (lowered w) w := by
  have hinstall := installStage_io manageSignals
  have helapsed := hinstall.related w
  refine .behindIo hinstall (.then saltCliResetInterrupted_plain
    ((lowered_later w).trans helapsed.later)
    (helapsed.trans (saltCliResetInterrupted_plain.elapsed _)).lowered (runArguments_answers inv ?_))
  exact (hbare.idle (installStage_idle manageSignals)).idle saltCliResetInterrupted_idle

def Apart (s t : World) : Prop := Alike { s with state := zeroState } { t with state := zeroState }

theorem Alike.apart {s t : World} (h : Alike s t) : Apart s t := by
  simp only [Apart, Alike, remains, Prod.mk.injEq] at h ⊢
  exact ⟨⟨h.1.1, trivial, h.1.2.2⟩, h.2⟩

theorem apart_refl (w : World) : Apart w w := rfl

theorem apart_trans (r s t : World) (h : Apart r s) (h' : Apart s t) : Apart r t := h'.trans h

theorem unlockFixedBuffer_apart (buffer : FixedBuffer) : Through Apart (unlockFixedBuffer buffer) := by
  refine .bind apart_trans (.step fun _ => rfl) fun rc => ?_
  split_ifs
  · exact .step fun _ => rfl
  · exact .ret apart_refl _

theorem restoreSignalHandler_alike (signal : Signal) :
    Through Alike (restoreSignalHandler signal) := by
  refine .bind alike_trans (.read alike_refl _) fun saved => ?_
  cases saved with
  | none => exact .ret alike_refl _
  | some d =>
    refine .bind alike_trans (.step fun w => ?_) fun _ => .step fun w => ?_
    · dsimp only
      split_ifs <;> cases signal <;> rfl
    · cases signal <;> rfl

theorem unlockFixedBuffers_apart (locked : Bool) : Through Apart (unlockFixedBuffers locked) := by
  unfold unlockFixedBuffers
  split_ifs
  · exact .bind apart_trans (unlockFixedBuffer_apart _) fun _ =>
      .bind apart_trans (unlockFixedBuffer_apart _) fun _ => unlockFixedBuffer_apart _
  · exact .ret apart_refl _

/-- With no buffers to free the cleanup zeroes the state, and that is all. -/
theorem saltCliStateCleanup_bare (hbare : Bare w) :
    Ends saltCliStateCleanup w fun _ w' => w'.state = zeroState ∧ Apart w w' := by
  have houtput : w.state.output = none := hbare.held .output
  have hkey : w.state.stdinKey = none := hbare.held .stdinKey
  have hplaintext : w.state.stdinPlaintext = none := hbare.held .stdinPlaintext
  have hcopy : w.state.argvPlaintextCopy = none := hbare.held .argvPlaintextCopy
  have htrimmed : w.state.trimmedKeyInput = none := hbare.held .trimmedKeyInput
  refine .bind_read (a := w.state) rfl ?_
  rw [houtput, hkey, hplaintext, hcopy, htrimmed]
  exact ⟨rfl, (unlockFixedBuffers_apart _ w).1⟩

theorem cleanupRun_bare (manageSignals : Bool) (hbare : Bare w) :
    Ends (cleanupRun manageSignals) w fun _ w' => w'.state = zeroState ∧ Apart w w' := by
  refine .ite (fun _ => ?_) fun _ => saltCliStateCleanup_bare hbare
  have hrestore : Through Alike saltCliRestoreSignalHandlers :=
    .bind alike_trans (restoreSignalHandler_alike .sigint) fun _ => restoreSignalHandler_alike .sigterm
  have hidle : Idle saltCliRestoreSignalHandlers :=
    (restoreSignalHandler_idle .sigint).bind fun _ => restoreSignalHandler_idle .sigterm
  refine Ends.bind (R := fun _ w' => Bare w' ∧ Alike w w') ⟨hbare.idle hidle, (hrestore w).1⟩ ?_
  exact fun _ w' h => (saltCliStateCleanup_bare h.1).mono fun _ _ h' =>
    ⟨h'.1, apart_trans _ _ _ h.2.apart h'.2⟩

theorem cleanupRun_heedless (manageSignals : Bool) : Heedless (cleanupRun manageSignals) := by
  intro s t hbare halike
  have hbare' : Bare t := by
    have hstate : t.state = s.state := congrArg (fun r => r.1.2.1) halike
    exact ⟨fun o => hstate ▸ hbare.held o, hstate ▸ hbare.parsedKeyB64⟩
  obtain ⟨hzero, hs⟩ := cleanupRun_bare manageSignals hbare
  obtain ⟨hzero', ht⟩ := cleanupRun_bare manageSignals hbare'
  refine ⟨⟨fun o => by rw [hzero]; cases o <;> rfl, _, by rw [hzero]; rfl⟩, ?_⟩
  have hends : Apart _ _ := (ht.trans (Alike.apart halike)).trans hs.symm
  simp only [Apart, Alike, remains, Prod.mk.injEq] at hends ⊢
  exact ⟨⟨hends.1.1, hzero'.trans hzero.symm, hends.1.2.2⟩, hends.2⟩

theorem saltCliRunWithStreamsInternal_answers (inv : Invocation) (nullStream manageSignals : Bool)
    (w : World) :
    Answers (saltCliRunWithStreamsInternal inv nullStream manageSignals) (lowered w) w := by
  unfold saltCliRunWithStreamsInternal
  split_ifs with hbad
  · exact ⟨lowered_later w, .refl w, .inl ⟨rfl, .inl rfl⟩⟩
  · have hbare : Bare (saltCliStateInit w).final := by
      have htracks : Tracks w (startView w) (saltCliStateInit w).final :=
        saltCliStateInit_tracks (Tracks.refl w)
      exact ⟨fun o => by rw [htracks.state]; cases o <;> rfl, _, by rw [htracks.state]; rfl⟩
    exact .then saltCliStateInit_plain (lowered_later w) (saltCliStateInit_plain.elapsed w).lowered
      ((runStages_answers inv manageSignals hbare).finally (cleanupRun_plain manageSignals)
        (cleanupRun_heedless manageSignals))

end Answering

/-- Whatever allocations fail, signals arrive and streams break, and whether libsodium comes up or
not: a run has the status of the run without these faults and leaves what that run leaves, unless its
status says which of them happened in it. A failed run may also lose a report to a refused write; all
but the error stream, the clock, the flag and the handlers is then as without the faults. -/
theorem saltCliRunWithStreamsInternal_failStop (inv : Invocation) (nullStream manageSignals : Bool)
    (w : World) :
    let r := saltCliRunWithStreamsInternal inv nullStream manageSignals w
    let calm := saltCliRunWithStreamsInternal inv nullStream manageSignals (faultless w)
    (calm.value = r.value ∧ (calm.final = faultless r.final ∨
      r.value ≠ .ok ∧ Refused w.err r.final.err ∧ remains calm.final = remains (faultless r.final))) ∨
    Blamed r.value (lowered w) r.final :=
  (saltCliRunWithStreamsInternal_answers inv nullStream manageSignals w).answer.imp_left
    fun ⟨hvalue, hend⟩ => ⟨hvalue, hend.imp_right fun ⟨hne, hlost⟩ =>
      ⟨hne, hlost.refused, hlost.same⟩⟩

end Salt.FailStop
