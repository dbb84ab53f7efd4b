import Salt.Orchestration
import Salt.Ownership

set_option autoImplicit false

/-!
# What the stages do to the buffers

An `Idle` program touches none of the buffers of the state: reports, the
option loop and the serializer are idle. A stage that makes a buffer leaves
all the others alone: it spares every block that was there before.
-/
namespace Salt.HeldBuffers
open ByteStrings BlockHeap TracedState Sealing Ownership

/-- The owned pointers, the buffer of the parsed key and the heap are the same. -/
structure Aside (s t : World) : Prop where
  held : held t.state = held s.state
  parsedKeyB64 : t.state.parsedKeyB64 = s.state.parsedKeyB64
  heap : t.heap = s.heap

theorem Aside.refl (w : World) : Aside w w := ⟨rfl, rfl, rfl⟩

theorem Aside.trans {r s t : World} (h : Aside r s) (h' : Aside s t) : Aside r t :=
  ⟨h'.held.trans h.held, h'.parsedKeyB64.trans h.parsedKeyB64, h'.heap.trans h.heap⟩

structure Idle {α : Type} (m : Cli α) : Prop where
  through : Through Aside m

section Idle
variable {α β : Type} {m n : Cli α} {f : α → Cli β}

theorem Idle.ret (a : α) : Idle (pure a : Cli α) := ⟨.ret Aside.refl a⟩

theorem Idle.read (f : World → α) : Idle (Traced.read f) := ⟨.read Aside.refl f⟩

theorem Idle.step {f : World → α × World} (h : ∀ w, Aside w (f w).2) : Idle (Traced.step f) :=
  ⟨.step h⟩

theorem Idle.bind (hm : Idle m) (hf : ∀ a, Idle (f a)) : Idle (m >>= f) :=
  ⟨.bind (fun _ _ _ h h' => h.trans h') hm.through fun a => (hf a).through⟩

theorem Idle.ite {c : Prop} [Decidable c] (hm : Idle m) (hn : Idle n) :
    Idle (if c then m else n) := by
  split_ifs <;> assumption

theorem Idle.aside {f : World → α × World}
    (h : ∀ w, ((f w).2.state, (f w).2.heap) = (w.state, w.heap)) : Idle (Salt.atomic f) :=
  Idle.step fun w => by
    obtain ⟨hstate, hheap⟩ := Prod.mk.inj (h w.deliver)
    exact ⟨congrArg Ownership.held hstate, congrArg CliState.parsedKeyB64 hstate, hheap⟩

theorem getState_idle : Idle getState := .read _

theorem modifyState_idle (f : CliState → CliState) (hheld : ∀ s, held (f s) = held s)
    (hkey : ∀ s, (f s).parsedKeyB64 = s.parsedKeyB64) : Idle (modifyState f) :=
  Idle.step fun w => ⟨hheld w.state, hkey w.state, rfl⟩

theorem held_ext {s s' : CliState} (houtput : s'.output = s.output)
    (hkey : s'.stdinKey = s.stdinKey) (hplaintext : s'.stdinPlaintext = s.stdinPlaintext)
    (hcopy : s'.argvPlaintextCopy = s.argvPlaintextCopy)
    (htrimmed : s'.trimmedKeyInput = s.trimmedKeyInput) : held s' = held s := by
  funext o
  cases o <;> assumption

theorem sodiumMlock_idle (len : ℕ) : Idle (sodiumMlock len) := .aside fun _ => rfl

theorem undefinedBehaviour_idle : Idle undefinedBehaviour := Idle.step fun _ => ⟨rfl, rfl, rfl⟩

theorem readByte_idle (id i : ℕ) : Idle (readByte id i) := by
  refine Idle.step fun w => ?_
  cases (blockBytes w id)[i]? <;> exact ⟨rfl, rfl, rfl⟩

theorem vfprintf_idle (sink : Sink) (data : Bytes) : Idle (vfprintf sink data) :=
  .aside fun _ => by cases sink <;> rfl

theorem fflush_idle (sink : Sink) : Idle (fflush sink) := .aside fun _ => by cases sink <;> rfl

theorem saltCliFgetcImpl_idle : Idle saltCliFgetcImpl := .aside fun _ => rfl

theorem saltCliUngetcImpl_idle (c : UInt8) : Idle (saltCliUngetcImpl c) := .aside fun _ => rfl

theorem scrubPositional_idle (i len : ℕ) : Idle (scrubPositional i len) := .aside fun _ => rfl

theorem sigaction_idle (signal : Signal) (d : Disposition) : Idle (sigaction signal d) :=
  .aside fun w => by
    split_ifs <;> cases signal <;> rfl

theorem setSaved_idle (signal : Signal) (d : Option Disposition) : Idle (setSaved signal d) := by
  cases signal <;> exact Idle.step fun _ => ⟨rfl, rfl, rfl⟩

theorem saltCliResetInterrupted_idle : Idle saltCliResetInterrupted := .aside fun _ => rfl

theorem setError_idle (error : CliState → Bytes) :
    Idle (modifyState fun s => { s with error := error s }) :=
  modifyState_idle _ (fun _ => held_ext rfl rfl rfl rfl rfl) fun _ => rfl

theorem saltCliSetError_idle (useError : Bool) (message : Bytes) (rc : SaltStatus) :
    Idle (saltCliSetError useError message rc) := by
  cases useError
  · exact Idle.bind (modifyState_idle _ (fun _ => rfl) fun _ => rfl) fun _ => .ret rc
  · exact Idle.bind (setError_idle _) fun _ => .ret rc

theorem saltCliFlushStream_idle (stream : Sink) (useError : Bool) (message : Bytes) :
    Idle (saltCliFlushStream stream useError message) :=
  (fflush_idle stream).bind fun _ => .ite (saltCliSetError_idle ..) (.ret _)

theorem saltCliWriteStream_idle (stream : Sink) (useError : Bool) (message text : Bytes) :
    Idle (saltCliWriteStream stream useError message text) :=
  (vfprintf_idle stream text).bind fun _ =>
    .ite (saltCliSetError_idle ..) (saltCliFlushStream_idle ..)

theorem saltCliReportStreamStatus_idle (stream : Sink) (useError : Bool) (rc : SaltStatus)
    (text : Bytes) : Idle (saltCliReportStreamStatus stream useError rc text) :=
  (vfprintf_idle stream text).bind fun _ => .ite (saltCliSetError_idle ..)
    ((saltCliFlushStream_idle ..).bind fun _ => .ite (.ret _) (.ret _))

theorem saltCliReportStateError_idle (rc : SaltStatus) : Idle (saltCliReportStateError rc) :=
  getState_idle.bind fun _ => saltCliReportStreamStatus_idle ..

theorem writeStateError_idle : Idle writeStateError :=
  getState_idle.bind fun _ => saltCliWriteStream_idle ..

theorem reportOrIo_idle (rc : SaltStatus) : Idle (reportOrIo rc) :=
  writeStateError_idle.bind fun _ => .ite (.ret _) (.ret _)

theorem saltCliCheckInterrupted_idle : Idle saltCliCheckInterrupted :=
  Idle.bind (.aside fun _ => rfl) fun _ => .ite (saltCliSetError_idle ..) (.ret _)

theorem reportIfInterrupted_idle : Idle reportIfInterrupted :=
  saltCliCheckInterrupted_idle.bind fun _ => .ite (saltCliReportStateError_idle _) (.ret _)

theorem saltCliEnsureSignalHandlers_idle : Idle saltCliEnsureSignalHandlers :=
  Idle.bind (.aside fun _ => rfl) fun _ => .ite (.ret _)
    ((sigaction_idle ..).bind fun _ => .ite (.ret _)
      ((setSaved_idle ..).bind fun _ => (sigaction_idle ..).bind fun _ =>
        .ite ((sigaction_idle ..).bind fun _ => (setSaved_idle ..).bind fun _ => .ret _)
          ((setSaved_idle ..).bind fun _ =>
            .bind (Idle.step fun _ => ⟨rfl, rfl, rfl⟩) fun _ => .ret _)))

theorem installStage_idle (manageSignals : Bool) : Idle (installStage manageSignals) :=
  .ite (saltCliEnsureSignalHandlers_idle.bind fun _ =>
    .ite ((saltCliSetError_idle ..).bind fun _ => reportOrIo_idle _) (.ret _)) (.ret _)

theorem restoreSignalHandler_idle (signal : Signal) : Idle (restoreSignalHandler signal) := by
  refine Idle.bind (.read _) fun saved => ?_
  cases saved with
  | none => exact .ret _
  | some d => exact (sigaction_idle ..).bind fun _ => setSaved_idle ..

theorem handleOption_held {s s' : CliState} {event : OptEvent} (h : handleOption s event = .ok s') :
    held s' = held s ∧ s'.parsedKeyB64 = s.parsedKeyB64 := by
  cases event with
  | output v =>
    simp only [handleOption] at h
    split at h
    · cases h
      exact ⟨held_ext rfl rfl rfl rfl rfl, rfl⟩
    · cases h
  | keyFormat v =>
    simp only [handleOption] at h
    split at h
    · cases h
      exact ⟨held_ext rfl rfl rfl rfl rfl, rfl⟩
    · cases h
  | key v => cases h; exact ⟨held_ext rfl rfl rfl rfl rfl, rfl⟩
  | keyId v => cases h; exact ⟨held_ext rfl rfl rfl rfl rfl, rfl⟩
  | help => cases h; exact ⟨held_ext rfl rfl rfl rfl rfl, rfl⟩
  | version => cases h; exact ⟨held_ext rfl rfl rfl rfl rfl, rfl⟩
  | missingArgument optopt => cases h
  | unknown optopt token => cases h

theorem saltCliHandleOption_idle (event : OptEvent) : Idle (saltCliHandleOption event) := by
  refine ⟨fun w => Stays.bind (fun _ ht => absurd ht List.not_mem_nil) ?_⟩
  simp only [getState, read_value, read_final]
  cases h : handleOption w.state event with
  | ok s =>
    have hset : Aside w { w with state := s } :=
      ⟨(handleOption_held h).1, (handleOption_held h).2, rfl⟩
    exact Stays.bind (fun t ht => List.mem_singleton.1 ht ▸ hset) (.ret hset)
  | error text => exact (saltCliReportStreamStatus_idle ..).through w

theorem handleOptions_idle (events : List OptEvent) : Idle (handleOptions events) := by
  induction events with
  | nil => exact .ret _
  | cons event rest ih => exact (saltCliHandleOption_idle event).bind fun _ => .ite (.ret _) ih

theorem reportWithUsage_idle (program : CString) (text : Bytes) :
    Idle (reportWithUsage program text) :=
  (saltCliReportStreamStatus_idle ..).bind fun _ => .ite (.ret _)
    ((saltCliWriteStream_idle ..).bind fun _ => .ite (.ret _) (.ret _))

theorem checkOptions_idle (inv : Invocation) : Idle (checkOptions inv) := by
  refine getState_idle.bind fun _ => .ite (reportWithUsage_idle ..)
    (.ite (saltCliReportStreamStatus_idle ..) (.ite (saltCliReportStreamStatus_idle ..)
      (.ite (.bind (modifyState_idle _ (fun _ => ?_) fun _ => rfl) fun _ => reportWithUsage_idle ..)
        (.bind (modifyState_idle _ (fun _ => ?_) fun _ => rfl) fun _ => ?_))))
  · exact held_ext rfl rfl rfl rfl rfl
  · exact held_ext rfl rfl rfl rfl rfl
  · exact getState_idle.bind fun _ => .ite (saltCliReportStreamStatus_idle ..) (.ret _)

theorem saltCliArgsParseArguments_idle (inv : Invocation) : Idle (saltCliArgsParseArguments inv) :=
  (handleOptions_idle inv.events).bind fun _ => .ite (.ret _)
    (getState_idle.bind fun _ => .ite (saltCliWriteStream_idle ..)
      (.ite ((Idle.read _).bind fun _ => saltCliWriteStream_idle ..) (checkOptions_idle inv)))

theorem finishArguments_idle (s : CliState) (rc : SaltStatus) : Idle (finishArguments s rc) :=
  .ite (writeStateError_idle.bind fun _ => .ret _) (.ret _)

theorem cliStreamWrite_idle (data : Bytes) : Idle (cliStreamWrite data) :=
  (vfprintf_idle .out data).bind fun _ => .ite ((setError_idle _).bind fun _ => .ret _) (.ret _)

theorem cliStreamFlush_idle : Idle cliStreamFlush :=
  (fflush_idle .out).bind fun _ => (Idle.read _).bind fun _ =>
    .ite ((setError_idle _).bind fun _ => .ret _) (.ret _)

theorem writeJsonByte_idle (c : UInt8) : Idle (writeJsonByte c) :=
  .ite ((cliStreamWrite_idle _).bind fun _ => .ite (.ret _) (cliStreamWrite_idle _))
    (.ite (cliStreamWrite_idle _) (.ite (cliStreamWrite_idle _) (.ite (cliStreamWrite_idle _)
      (.ite (cliStreamWrite_idle _) (cliStreamWrite_idle _)))))

theorem writeJsonBytes_idle (bytes : Bytes) : Idle (writeJsonBytes bytes) := by
  induction bytes with
  | nil => exact cliStreamWrite_idle _
  | cons c cursor ih => exact (writeJsonByte_idle c).bind fun _ => .ite (.ret _) ih

theorem writeJsonString_idle (value : CString) : Idle (writeJsonString value) :=
  (cliStreamWrite_idle _).bind fun _ => .ite (.ret _) (writeJsonBytes_idle _)

theorem writeAll_idle {writes : List (Cli SaltStatus)} (h : ∀ m ∈ writes, Idle m) :
    Idle (writeAll writes) := by
  induction writes with
  | nil => exact .ret _
  | cons m writes ih =>
    exact (h m List.mem_cons_self).bind fun _ =>
      .ite (.ret _) (ih fun m' hm' => h m' (List.mem_cons_of_mem _ hm'))

theorem emitJson_idle (value keyId : CString) : Idle (emitJson value keyId) := by
  refine Idle.bind (writeAll_idle fun m hm => ?_) fun _ => .ite (.ret _) cliStreamFlush_idle
  simp only [List.mem_cons, List.not_mem_nil, or_false] at hm
  rcases hm with rfl | rfl | rfl | rfl | rfl | rfl
  · exact cliStreamWrite_idle _
  · exact cliStreamWrite_idle _
  · exact writeJsonString_idle value
  · exact cliStreamWrite_idle _
  · exact writeJsonString_idle keyId
  · exact cliStreamWrite_idle _

theorem emitError_idle (message : Bytes) : Idle (emitError message) :=
  (setError_idle _).bind fun _ => .ret _

theorem saltCliEmitOutput_idle (mode : OutputMode) (value : CString) (keyId : Option CString) :
    Idle (saltCliEmitOutput mode value keyId) := by
  refine .ite ((cliStreamWrite_idle _).bind fun _ => .ite (.ret _) cliStreamFlush_idle) ?_
  cases keyId with
  | none => exact emitError_idle _
  | some keyId =>
    exact .ite (emitError_idle _) (.ite (emitError_idle _) (emitJson_idle value keyId))

theorem emitStage_idle : Idle emitStage :=
  getState_idle.bind fun _ => Idle.bind (.read _) fun _ => (saltCliEmitOutput_idle ..).bind fun _ =>
    .ite (reportOrIo_idle _) (.ret _)

end Idle

/-- No buffer was made, and the one of the parsed key was never filled. -/
structure Bare (w : World) : Prop where
  held : ∀ o, held w.state o = none
  parsedKeyB64 : ∃ n, w.state.parsedKeyB64 = List.replicate n 0

section Bare
variable {α : Type} {w w' : World}

theorem Bare.aside (h : Bare w) (hw : Aside w w') : Bare w' where
  held o := (congrFun hw.held o).trans (h.held o)
  parsedKeyB64 := by
    rw [hw.parsedKeyB64]
    exact h.parsedKeyB64

theorem Bare.idle {m : Cli α} (h : Bare w) (hm : Idle m) : Ends m w fun _ w' => Bare w' :=
  h.aside (hm.through w).1

end Bare

/-- The block with this number is as it was, if there is one. -/
def Kept (id : ℕ) (s t : World) : Prop := ∀ b, s.heap[id]? = some b → t.heap[id]? = some b

structure Spares {α : Type} (id : ℕ) (m : Cli α) : Prop where
  through : Through (Kept id) m

section Spares
variable {α β : Type} {id : ℕ} {m n : Cli α} {f : α → Cli β}

theorem Idle.spares (hm : Idle m) : Spares id m :=
  ⟨fun w => (hm.through w).imp (fun h b hb => by rw [h.heap, hb])
    fun h t ht b hb => by rw [(h t ht).heap, hb]⟩

theorem Spares.bind (hm : Spares id m) (hf : ∀ a, Spares id (f a)) : Spares id (m >>= f) :=
  ⟨.bind (fun _ _ _ h h' b hb => h' b (h b hb)) hm.through fun a => (hf a).through⟩

theorem Spares.ret (a : α) : Spares id (pure a : Cli α) := (Idle.ret a).spares

theorem Spares.ite {c : Prop} [Decidable c] (hm : Spares id m) (hn : Spares id n) :
    Spares id (if c then m else n) := by
  split_ifs <;> assumption

theorem Spares.step {f : World → α × World} (h : ∀ w, Kept id w (f w).2) :
    Spares id (Traced.step f) :=
  ⟨.step h⟩

theorem Spares.atomic {f : World → α × World} (h : ∀ w, Kept id w (f w).2) :
    Spares id (Salt.atomic f) :=
  .step fun w => h w.deliver

theorem modifyState_spares (f : CliState → CliState) : Spares id (modifyState f) :=
  Spares.step fun _ _ hb => hb

theorem parseKeyOfState_spares : Spares id parseKeyOfState := by
  refine Spares.step fun w b hb => ?_
  cases parseTrimmedKey w with
  | none => exact hb
  | some r => exact hb

theorem modify_kept {i : ℕ} (hne : i ≠ id) (g : Block → Block) {s t : World}
    (ht : t.heap = s.heap.modify i g) : Kept id s t := by
  intro b hb
  rw [ht, List.getElem?_modify_ne _ _ hne, hb]

theorem editBlock_spares {i : ℕ} (hne : i ≠ id) (g : Bytes → Option Bytes) :
    Spares id (editBlock i g) := by
  refine Spares.step fun w => ?_
  dsimp only
  cases g (blockBytes w i) with
  | none => exact fun _ hb => hb
  | some bytes => exact modify_kept hne _ rfl

theorem cliSecureReleaseBuffer_spares {i : ℕ} (hne : i ≠ id) (len : ℕ) :
    Spares id (cliSecureReleaseBuffer i len) := by
  have hmunlock : Spares id (sodiumMunlock i len) := .atomic fun _ => modify_kept hne _ rfl
  have hmemzero : Spares id (sodiumMemzero i len) := .atomic fun _ => modify_kept hne _ rfl
  have hfree : Spares id (saltCliFreeImpl i) := .atomic fun _ => modify_kept hne _ rfl
  exact hmunlock.bind fun _ => .ite (hmemzero.bind fun _ => hfree) hfree

theorem saltCliFreadImpl_spares {i : ℕ} (hne : i ≠ id) (maxLen : ℕ) :
    Spares id (saltCliFreadImpl i maxLen) := .atomic fun _ => modify_kept hne _ rfl

/-- A new block has a number of its own. -/
theorem Spares.alloc {size : ℕ} {f : Option ℕ → Cli α}
    (hnone : Spares id (f none)) (hsome : ∀ i, i ≠ id → Spares id (f (some i))) :
    Spares id (saltCliAllocImpl size >>= f) := by
  refine ⟨fun w => ?_⟩
  by_cases hlt : id < w.heap.length
  · have hkept : Kept id w (saltCliAllocImpl size w).final := fun b hb => by
      simp only [saltCliAllocImpl, Salt.atomic, step_final, World.deliver, World.tick]
      cases w.env.alloc w.clock with
      | none => exact hb
      | some content => exact (List.getElem?_append_left hlt).trans hb
    have hrest : Spares id (f (saltCliAllocImpl size w).value) := by
      simp only [saltCliAllocImpl, Salt.atomic, step_value, World.deliver]
      cases w.env.alloc w.clock with
      | none => exact hnone
      | some content => exact hsome w.heap.length (Nat.ne_of_gt hlt)
    refine Stays.bind (fun t ht => List.mem_singleton.1 ht ▸ hkept) ?_
    exact (hrest.through _).imp (fun h b hb => h b (hkept b hb)) fun h t ht b hb => h t ht b (hkept b hb)
  · exact ⟨fun b hb => absurd (List.getElem?_eq_some_iff.1 hb).1 hlt,
      fun _ _ b hb => absurd (List.getElem?_eq_some_iff.1 hb).1 hlt⟩

theorem failRead_spares {buffer : ℕ} (hne : buffer ≠ id) (maxLen : ℕ) (message : Bytes)
    (rc : SaltStatus) : Spares id (failRead buffer maxLen message rc) :=
  (saltCliSetError_idle ..).spares.bind fun _ =>
    (cliSecureReleaseBuffer_spares hne _).bind fun _ => .ret _

theorem finishRead_spares {buffer : ℕ} (hne : buffer ≠ id) (bytesRead : ℕ) :
    Spares id (finishRead buffer bytesRead) :=
  (editBlock_spares hne _).bind fun _ => .ret _

theorem probeRead_spares {buffer : ℕ} (hne : buffer ≠ id) (maxLen : ℕ) :
    Spares id (probeRead buffer maxLen) := by
  refine saltCliFgetcImpl_idle.spares.bind fun nextChar => ?_
  cases nextChar with
  | none =>
    exact (Idle.read _).spares.bind fun _ =>
      .ite (failRead_spares hne ..) (finishRead_spares hne _)
  | some c =>
    exact (saltCliUngetcImpl_idle c).spares.bind fun _ =>
      .ite (failRead_spares hne ..) (failRead_spares hne ..)

theorem fillBuffer_spares {buffer : ℕ} (hne : buffer ≠ id) (maxLen : ℕ) :
    Spares id (fillBuffer buffer maxLen) :=
  (sodiumMlock_idle _).spares.bind fun _ => (saltCliFreadImpl_spares hne maxLen).bind fun _ =>
    saltCliCheckInterrupted_idle.spares.bind fun _ =>
      .ite ((cliSecureReleaseBuffer_spares hne _).bind fun _ => .ret _)
        ((Idle.read _).spares.bind fun _ => .ite (failRead_spares hne ..)
          (.ite (probeRead_spares hne maxLen) (finishRead_spares hne _)))

theorem cliInputReadStreamLimited_spares (maxLen : ℕ) :
    Spares id (cliInputReadStreamLimited maxLen) :=
  (Idle.read _).spares.bind fun _ => .ite ((saltCliSetError_idle ..).spares.bind fun _ => .ret _)
    (saltCliCheckInterrupted_idle.spares.bind fun _ => .ite (.ret _)
      (.alloc ((saltCliSetError_idle ..).spares.bind fun _ => .ret _)
        fun _ hne => fillBuffer_spares hne maxLen))

theorem copyKeyOption_spares : Spares id copyKeyOption := by
  refine getState_idle.spares.bind fun s => (Idle.read _).spares.bind fun source => ?_
  cases cliBoundedStrlen source (saltMaxKeyInputLen + 1) with
  | none => exact undefinedBehaviour_idle.spares.bind fun _ => .ret _
  | some keyCopyLen =>
    refine .ite (saltCliReportStreamStatus_idle ..).spares
      (.alloc (saltCliReportStreamStatus_idle ..).spares fun copy hne => ?_)
    exact (modifyState_spares _).bind fun _ => (sodiumMlock_idle _).spares.bind fun _ =>
      (editBlock_spares hne _).bind fun _ => (editBlock_spares hne _).bind fun _ => .ret _

theorem saltCliLoadPlaintextFromArgv_spares (plaintextArg : ℕ) :
    Spares id (saltCliLoadPlaintextFromArgv plaintextArg) := by
  refine (Idle.read _).spares.bind fun source => (Idle.read _).spares.bind fun width => ?_
  cases cliBoundedStrlen source (saltGithubSecretMaxValueLen + 1) with
  | none => exact undefinedBehaviour_idle.spares.bind fun _ => .ret _
  | some argLen =>
    refine .ite (saltCliReportStreamStatus_idle ..).spares
      (.ite (saltCliReportStreamStatus_idle ..).spares ((modifyState_spares _).bind fun _ =>
        .alloc (saltCliReportStreamStatus_idle ..).spares fun copy hne => ?_))
    exact (modifyState_spares _).bind fun _ => (sodiumMlock_idle _).spares.bind fun _ =>
      (editBlock_spares hne _).bind fun _ => (scrubPositional_idle ..).spares.bind fun _ =>
        (modifyState_spares _).bind fun _ => .ret _

theorem loadPlaintextFromStdin_spares : Spares id loadPlaintextFromStdin := by
  refine (cliInputReadStreamLimited_spares _).bind fun r => ?_
  obtain ⟨rc, _ | ⟨stdinPlaintext, messageLen⟩⟩ := r
  · exact (saltCliReportStateError_idle rc).spares
  · exact (modifyState_spares _).bind fun _ => .ret _

theorem saltCliInputLoadPlaintext_spares : Spares id saltCliInputLoadPlaintext :=
  (getState_idle.spares.bind fun _ =>
      .ite loadPlaintextFromStdin_spares (saltCliLoadPlaintextFromArgv_spares _)).bind fun _ =>
    .ite (.ret _) (reportIfInterrupted_idle.spares.bind fun _ => .ite (.ret _)
      (getState_idle.spares.bind fun _ => .ite (saltCliReportStreamStatus_idle ..).spares (.ret _)))

theorem checkSealed_spares : Spares id checkSealed :=
  saltCliCheckInterrupted_idle.spares.bind fun _ => Spares.bind (Spares.step fun _ _ hb => hb)
    fun _ => .ite (saltCliReportStateError_idle _).spares (getState_idle.spares.bind fun _ =>
      .ite (saltCliReportStreamStatus_idle ..).spares (.ret _))

/-- The seal writes to the block it is given. -/
theorem sealIntoOutput_spares {output : ℕ} (hne : output ≠ id) (outputSize : ℕ) :
    Spares id (sealIntoOutput output outputSize) := by
  have hrest (rc : SaltStatus) : Spares id
      (if rc ≠ .ok then saltCliReportStateError rc else checkSealed) :=
    .ite (saltCliReportStateError_idle rc).spares checkSealed_spares
  have hseal {w : World} (hw : w.state.output = some output) :
      Stays (Kept id w) saltCliSealImpl w := by
    refine Stays.step ?_
    have hw' : w.deliver.state.output = some output := hw
    simp only [hw']
    cases (sealState w.deliver).output with
    | none => exact fun _ hb => hb
    | some bytes => exact modify_kept hne _ rfl
  refine ⟨fun w => Stays.bind (fun t ht => List.mem_singleton.1 ht ▸ fun _ hb => hb) ?_⟩
  refine Stays.bind (fun t ht => List.mem_singleton.1 ht ▸ fun _ hb => hb) ?_
  refine Stays.bind (hseal rfl).2 ?_
  exact ((hrest _).through _).imp (fun h b hb => h b ((hseal rfl).1 b hb))
    fun h t ht b hb => h t ht b ((hseal rfl).1 b hb)

theorem saltCliPrepareOutput_spares : Spares id saltCliPrepareOutput :=
  (modifyState_spares _).bind fun _ => (Idle.read _).spares.bind fun _ =>
    .ite (saltCliReportStreamStatus_idle ..).spares
      (.alloc (saltCliReportStreamStatus_idle ..).spares fun _ hne => sealIntoOutput_spares hne _)

end Spares
end Salt.HeldBuffers
