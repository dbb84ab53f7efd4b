import Salt.FailStop
import Salt.SealingContract

set_option autoImplicit false

/-!
# A run without faults keeps to its own statuses

A calm world has no faults to come, and every stage leaves a calm world calm.
`SALT_ERR_IO` and `SALT_ERR_SIGNAL` are then out of reach.
-/
namespace Salt.CalmRun
open ByteStrings TracedState Sealing SealingContract KeyParsing StreamFacts FaultShadows FailStop

/-- A world that is its own shadow. -/
def Calm (w : World) : Prop := faultless w = w

theorem faultlessWrite_idem (o : WriteOutcome) : faultlessWrite (faultlessWrite o) = faultlessWrite o := by
  cases o <;> rfl

theorem faultless_calm (w : World) : Calm (faultless w) := by
  have hout (s : OutStream) : faultlessOut (faultlessOut s) = faultlessOut s := by
    simp only [faultlessOut, faultlessWrite_idem]
  have hsodium : faultlessSodium (faultlessSodium w.env.sodium) = faultlessSodium w.env.sodium := by
    simp only [faultlessSodium, Int.max_assoc, Int.max_self, Option.getD_some]
  simp only [Calm, faultless, hout, faultlessEnv, hsodium, Option.getD_some]
  rfl

section Calm
variable {w w' : World}

theorem Calm.interrupted (h : Calm w) : w.interrupted = false := h ▸ rfl

theorem Calm.signals (h : Calm w) (t : ℕ) (s : Signal) : w.env.signals t s = false := h ▸ rfl

theorem Calm.alloc (h : Calm w) (t : ℕ) : w.env.alloc t ≠ none := by
  rw [← h]
  exact Option.some_ne_none _

theorem Calm.input (h : Calm w) : w.input.errorFlag = false ∧ (∀ i, w.input.readFault i = none) ∧
    ∀ i, w.input.ungetFault i = false := by
  rw [← h]
  exact ⟨rfl, fun _ => rfl, fun _ => rfl⟩

theorem Calm.sink (h : Calm w) (sink : Sink) :
    (w.sink sink).errorFlag = false ∧ (w.sink sink).Accepts := by
  rw [← h]
  cases sink
  · exact ⟨rfl, faultlessOut_accepts _⟩
  · exact ⟨rfl, faultlessOut_accepts _⟩

theorem Calm.sodium (h : Calm w) : w.env.sodium.alloc ≠ none ∧ 0 ≤ w.env.sodium.init := by
  rw [← h]
  exact ⟨Option.some_ne_none _, Int.le_max_right _ _⟩

theorem Calm.not_blamed (h : Calm w) (helapsed : Elapsed w w') (rc : SaltStatus) :
    ¬ Blamed rc w w' := by
  rintro (hsignal | hinput | ⟨sink, houtput⟩ | halloc | ⟨-, hinit⟩)
  · rcases hsignal with hflag | ⟨t, -, -, s, hs⟩
    · exact Bool.noConfusion (h.interrupted.symm.trans hflag)
    · exact Bool.noConfusion ((h.signals t s).symm.trans hs)
  · obtain ⟨hclear, hread, hunget⟩ := h.input
    rcases hinput with hflag | ⟨i, -, -, hfault | hfault⟩
    · exact Bool.noConfusion (hclear.symm.trans hflag)
    · exact hfault (hread i)
    · exact Bool.noConfusion ((hunget i).symm.trans hfault)
  · obtain ⟨hclear, haccepts⟩ := h.sink sink
    rcases houtput with hflag | ⟨i, -, -, kept, drained, hfail⟩
    · exact Bool.noConfusion (hclear.symm.trans hflag)
    · obtain ⟨n, hok⟩ := haccepts i
      exact WriteOutcome.noConfusion (hok.symm.trans hfail)
  · rcases halloc with hlt | ⟨-, hnone⟩
    · obtain ⟨t, hnone⟩ := helapsed.refused hlt
      exact h.alloc t hnone
    · exact h.sodium.1 hnone
  · exact Int.not_lt.2 h.sodium.2 hinit

end Calm

/-- From a calm world the program ends calm, with a result in `P`. -/
def Calmly {α : Type} (P : α → Prop) (m : Cli α) : Prop :=
  ∀ w, Calm w → Ends m w fun a w' => P a ∧ Calm w'

section Rules
variable {α β : Type} {P P' : α → Prop} {Q : β → Prop} {shows : α → SaltStatus → Prop} {m n : Cli α}
  {f : α → Cli β}

theorem Calmly.ret {a : α} (h : P a) : Calmly P (pure a : Cli α) := fun _ hw => ⟨h, hw⟩

theorem Calmly.mono (hm : Calmly P m) (h : ∀ a, P a → P' a) : Calmly P' m := fun w hw =>
  (hm w hw).imp_left (h _)

theorem Calmly.bind (hm : Calmly P m) (hf : ∀ a, P a → Calmly Q (f a)) : Calmly Q (m >>= f) :=
  fun w hw => Ends.bind (hm w hw) fun a w' ⟨ha, hw'⟩ => hf a ha w' hw'

theorem Calmly.ite {c : Prop} [Decidable c] (hm : c → Calmly P m) (hn : ¬ c → Calmly P n) :
    Calmly P (if c then m else n) := by
  split_ifs with h
  · exact hm h
  · exact hn h

theorem calmly_of_beside (hm : Beside shows m) (h : ∀ w, Calm w → P (m w).value) : Calmly P m := by
  intro w hw
  refine ⟨h w hw, ?_⟩
  rcases hm.shadow w with ⟨-, hend⟩ | ⟨rc, -, hblamed⟩
  · exact hend.symm.trans (congrArg (fun w => (m w).final) hw)
  · exact absurd hblamed (hw.not_blamed (hm.related w) rc)

theorem calmly_of_plain (hm : Plain m) (h : ∀ w, P (m w).value) : Calmly P m := fun w hw =>
  ⟨h w, (hm.commutes w).2.symm.trans (congrArg (fun w => (m w).final) hw)⟩

theorem calmly_then (hm : Plain m) (hf : ∀ a, Calmly Q (f a)) : Calmly Q (m >>= f) :=
  .bind (P := fun _ => True) (calmly_of_plain hm fun _ => trivial) fun a _ => hf a

theorem calmly_of_passes {m : Cli SaltStatus} {rc : SaltStatus} (hm : Beside Eq m)
    (h : Passes Eq rc m) : Calmly (fun a => a = rc) m :=
  calmly_of_beside hm fun w hw => by
    obtain ⟨_, rfl, hrc | hblamed⟩ := h w
    · exact hrc
    · exact absurd hblamed (hw.not_blamed (hm.related w) _)

end Rules

theorem vfprintf_calmly (sink : Sink) (data : Bytes) :
    Calmly (fun ok => ok = true) (vfprintf sink data) :=
  calmly_of_beside (vfprintf_beside sink data) fun w hw => by
    have haccepts : (w.deliver.sink sink).Accepts := by
      cases sink
      · exact (hw.sink .out).2
      · exact (hw.sink .err).2
    exact write_of_accepts data haccepts

theorem fflush_calmly (sink : Sink) : Calmly (fun ok => ok = true) (fflush sink) :=
  calmly_of_beside (fflush_beside sink) fun w hw => by
    have haccepts : (w.deliver.sink sink).Accepts := by
      cases sink
      · exact (hw.sink .out).2
      · exact (hw.sink .err).2
    exact flush_of_accepts haccepts

theorem ferror_calmly (sink : Sink) : Calmly (fun failed => failed = false) (ferror sink) :=
  calmly_of_beside (ferror_beside sink) fun _ hw => (hw.sink sink).1

theorem saltCliFerrorImpl_calmly : Calmly (fun failed => failed = false) saltCliFerrorImpl :=
  calmly_of_beside saltCliFerrorImpl_beside fun _ hw => hw.input.1

theorem saltCliUngetcImpl_calmly (c : UInt8) : Calmly (fun ok => ok = true) (saltCliUngetcImpl c) :=
  calmly_of_beside (saltCliUngetcImpl_beside c) fun w hw => by
    have hfault : w.input.ungetFault w.input.calls = false := hw.input.2.2 _
    change (w.input.ungetc c).1 = true
    simp only [InStream.ungetc, hfault, Bool.false_eq_true, if_false]

/-- A read in a calm world leaves the error flag down. -/
theorem calmly_of_unbroken {α : Type} {shows : α → Prop} {m : Cli α}
    (hm : Shadowed faultless Elapsed (Broken shows) m)
    (h : ∀ w, Calm w → (m w).final.input.errorFlag = false) : Calmly (fun _ => True) m := by
  intro w hw
  refine ⟨trivial, ?_⟩
  rcases hm.shadow w with ⟨-, hend⟩ | ⟨-, hflag⟩
  · exact hend.symm.trans (congrArg (fun w => (m w).final) hw)
  · exact absurd ((h w hw).symm.trans hflag) (by decide)

theorem saltCliFreadImpl_calmly (id maxLen : ℕ) : Calmly (fun _ => True) (saltCliFreadImpl id maxLen) :=
  calmly_of_unbroken (saltCliFreadImpl_beside id maxLen) fun w hw => by
    obtain ⟨hclear, hread, -⟩ := hw.input
    change (w.input.errorFlag || (w.input.readFault w.input.calls).isSome) = false
    rw [hclear, hread]
    rfl

theorem saltCliFgetcImpl_calmly : Calmly (fun _ => True) saltCliFgetcImpl :=
  calmly_of_unbroken saltCliFgetcImpl_beside fun w hw => by
    obtain ⟨hclear, hread, -⟩ := hw.input
    change w.input.fgetc.2.errorFlag = false
    simp only [InStream.fgetc, hread]
    cases w.input.rest <;> exact hclear

theorem saltCliAllocImpl_calmly (size : ℕ) : Calmly (fun _ => True) (saltCliAllocImpl size) :=
  calmly_of_beside (saltCliAllocImpl_beside size) fun _ _ => trivial

theorem saltCliCheckInterrupted_calmly : Calmly (fun rc => rc = .ok) saltCliCheckInterrupted :=
  calmly_of_beside saltCliCheckInterrupted_beside fun w hw =>
    (saltCliCheckInterrupted_ends w).2.2.resolve_right fun ⟨_, hseen⟩ =>
      hw.not_blamed (saltCliCheckInterrupted_ends w).1 .errSignal (.signal hseen)

/-- A status that the program comes to by itself. -/
def Own (rc : SaltStatus) : Prop := rc ≠ .errIo ∧ rc ≠ .errSignal

theorem calmly_ok {rc : SaltStatus} (h : rc = .ok) {m n : Cli SaltStatus} {P : SaltStatus → Prop}
    (hn : Calmly P n) : Calmly P (if rc ≠ .ok then m else n) :=
  .ite (fun hne => absurd h hne) fun _ => hn

section Reports
variable (useError : Bool) (text : Bytes) (rc : SaltStatus)

theorem saltCliReportStreamStatus_calmly :
    Calmly (fun a => a = rc) (saltCliReportStreamStatus .err useError rc text) :=
  calmly_of_passes (saltCliReportStreamStatus_beside ..) (saltCliReportStreamStatus_passes _ _ _)

theorem saltCliReportStreamStatus_own (hrc : Own rc) :
    Calmly Own (saltCliReportStreamStatus .err useError rc text) :=
  (saltCliReportStreamStatus_calmly useError text rc).mono fun _ h => h ▸ hrc

theorem saltCliReportStateError_calmly : Calmly (fun a => a = rc) (saltCliReportStateError rc) :=
  calmly_of_passes (saltCliReportStateError_beside rc) (saltCliReportStateError_passes rc)

theorem saltCliReportStateError_own (hrc : Own rc) : Calmly Own (saltCliReportStateError rc) :=
  (saltCliReportStateError_calmly rc).mono fun _ h => h ▸ hrc

theorem reportOrIo_own (hrc : Own rc) : Calmly Own (reportOrIo rc) :=
  (calmly_of_passes (reportOrIo_beside rc) (reportOrIo_passes rc)).mono fun _ h => h ▸ hrc

theorem saltCliWriteStream_calmly (stream : Sink) (message : Bytes) :
    Calmly (fun a => a = .ok) (saltCliWriteStream stream useError message text) := by
  refine (vfprintf_calmly stream text).bind fun ok hok => ?_
  subst hok
  refine (fflush_calmly stream).bind fun ok hok => ?_
  subst hok
  exact .ret rfl

end Reports

theorem andThen_own {m n : Cli SaltStatus} (hm : Calmly Own m) (hn : Calmly Own n) : Calmly Own (do
    let rc ← m
    if rc ≠ .ok then return rc else n) :=
  hm.bind fun _ hrc => .ite (fun _ => .ret hrc) fun _ => hn

theorem orReport_own {m n : Cli SaltStatus} (hm : Calmly Own m) (hn : Calmly Own n) : Calmly Own (do
    let rc ← m
    if rc ≠ .ok then saltCliReportStateError rc else n) :=
  hm.bind fun rc hrc => .ite (fun _ => saltCliReportStateError_own rc hrc) fun _ => hn

theorem own_ok : Own .ok := ⟨by decide, by decide⟩
theorem own_input : Own .errInput := ⟨by decide, by decide⟩
theorem own_internal : Own .errInternal := ⟨by decide, by decide⟩

section Reading
variable (buffer maxLen : ℕ)

theorem failRead_own (message : Bytes) {rc : SaltStatus} (hrc : Own rc) :
    Calmly (fun r => Own r.1) (failRead buffer maxLen message rc) :=
  calmly_of_plain (failRead_plain ..) fun _ => hrc

theorem probeRead_own : Calmly (fun r => Own r.1) (probeRead buffer maxLen) := by
  refine saltCliFgetcImpl_calmly.bind fun nextChar _ => ?_
  cases nextChar with
  | none =>
    refine saltCliFerrorImpl_calmly.bind fun failed hfailed => ?_
    subst hfailed
    exact calmly_then (editBlock_plain ..) fun _ => .ret own_ok
  | some c =>
    refine (saltCliUngetcImpl_calmly c).bind fun restored hrestored => ?_
    subst hrestored
    exact failRead_own buffer maxLen _ own_input

theorem fillBuffer_own : Calmly (fun r => Own r.1) (fillBuffer buffer maxLen) := by
  refine calmly_then (sodiumMlock_plain _) fun _ => (saltCliFreadImpl_calmly buffer maxLen).bind
    fun n _ => saltCliCheckInterrupted_calmly.bind fun rc hrc => ?_
  subst hrc
  refine saltCliFerrorImpl_calmly.bind fun failed hfailed => ?_
  subst hfailed
  exact .ite (fun h => absurd h (by decide)) fun _ => .ite (fun _ => probeRead_own buffer maxLen)
    fun _ => calmly_then (editBlock_plain ..) fun _ => .ret own_ok

end Reading

theorem cliInputReadStreamLimited_own (maxLen : ℕ) :
    Calmly (fun r => Own r.1) (cliInputReadStreamLimited maxLen) := by
  refine calmly_then (Plain.read fun _ => rfl) fun width => .ite (fun _ => ?_) fun _ =>
    saltCliCheckInterrupted_calmly.bind fun rc hrc => ?_
  · exact calmly_of_plain ((saltCliSetError_plain ..).bind fun _ => .ret _) fun _ => own_internal
  · subst hrc
    refine (saltCliAllocImpl_calmly _).bind fun buffer _ => ?_
    cases buffer with
    | none =>
      exact calmly_of_plain ((saltCliSetError_plain ..).bind fun _ => .ret _) fun _ => own_internal
    | some buffer => exact fillBuffer_own buffer maxLen

theorem saltCliLoadPlaintextFromArgv_own (plaintextArg : ℕ) :
    Calmly Own (saltCliLoadPlaintextFromArgv plaintextArg) := by
  refine calmly_then (Plain.read fun _ => rfl) fun source =>
    calmly_then (Plain.read fun _ => rfl) fun width => ?_
  cases cliBoundedStrlen source (saltGithubSecretMaxValueLen + 1) with
  | none => exact calmly_then undefinedBehaviour_plain fun _ => .ret own_internal
  | some argLen =>
    refine .ite (fun _ => saltCliReportStreamStatus_own _ _ _ own_input) fun _ => .ite
      (fun _ => saltCliReportStreamStatus_own _ _ _ own_input) fun _ =>
        calmly_then (modifyState_plain _) fun _ => (saltCliAllocImpl_calmly _).bind fun copy _ => ?_
    cases copy with
    | none => exact saltCliReportStreamStatus_own _ _ _ own_internal
    | some copy =>
      exact calmly_then (modifyState_plain _) fun _ => calmly_then (sodiumMlock_plain _) fun _ =>
        calmly_then (editBlock_plain ..) fun _ => calmly_then (scrubPositional_plain ..) fun _ =>
          calmly_then (modifyState_plain _) fun _ => .ret own_ok

theorem loadKeyFromStdin_own : Calmly Own loadKeyFromStdin := by
  refine (cliInputReadStreamLimited_own _).bind fun ⟨rc, block⟩ hrc => ?_
  cases block with
  | none => exact saltCliReportStateError_own rc hrc
  | some block =>
    exact calmly_then (modifyState_plain _) fun _ => calmly_then (editBlock_plain ..) fun _ =>
      calmly_then (readByte_plain ..) fun _ =>
        .ite (fun _ => saltCliReportStreamStatus_own _ _ _ own_input) fun _ =>
          calmly_then (modifyState_plain _) fun _ => .ret own_ok

theorem copyKeyOption_own : Calmly Own copyKeyOption := by
  refine calmly_then getState_plain fun s => calmly_then (Plain.read fun _ => ?_) fun source => ?_
  · cases s.keyOption with
    | none => rfl
    | some ref => cases ref <;> rfl
  cases cliBoundedStrlen source (saltMaxKeyInputLen + 1) with
  | none => exact calmly_then undefinedBehaviour_plain fun _ => .ret own_internal
  | some keyCopyLen =>
    refine .ite (fun _ => saltCliReportStreamStatus_own _ _ _ own_input) fun _ =>
      (saltCliAllocImpl_calmly _).bind fun copy _ => ?_
    cases copy with
    | none => exact saltCliReportStreamStatus_own _ _ _ own_internal
    | some copy =>
      exact calmly_then (modifyState_plain _) fun _ => calmly_then (sodiumMlock_plain _) fun _ =>
        calmly_then (editBlock_plain ..) fun _ => calmly_then (editBlock_plain ..) fun _ =>
          .ret own_ok

/-- A parser that stays in its input ends in a status in `P`. -/
def Gives {α : Type} (P : SaltStatus → Prop) (o : Option (SaltStatus × α)) : Prop :=
  ∀ r ∈ o, P r.1

section Parsing
variable {α β : Type} {P : SaltStatus → Prop}

theorem Gives.none : Gives P (none : Option (SaltStatus × α)) := fun _ h => absurd h (by simp)

theorem Gives.some {rc : SaltStatus} {a : α} (h : P rc) : Gives P (some (rc, a)) := fun _ hr =>
  Option.some.inj hr ▸ h

theorem Gives.bind {o : Option β} {f : β → Option (SaltStatus × α)} (h : ∀ b, Gives P (f b)) :
    Gives P (o >>= f) := fun r hr => by
  obtain ⟨b, -, hb⟩ := Option.bind_eq_some_iff.1 hr
  exact h b r hb

theorem Gives.ite {c : Prop} [Decidable c] {o o' : Option (SaltStatus × α)} (h : Gives P o)
    (h' : Gives P o') : Gives P (if c then o else o') := by
  split_ifs <;> assumption

end Parsing

theorem saltCliCopyBase64KeyInput_own (cursor keyB64 : Bytes) (error : Option Bytes) :
    Gives Own (saltCliCopyBase64KeyInput cursor keyB64 error) :=
  .bind fun _ => .ite (.some own_input) (.bind fun _ => .bind fun _ => .bind fun _ =>
    .ite (.some own_input) (.some own_ok))

theorem jsonFinishKeyFields_own (s : Fields) (flag : Bool) :
    Gives Own (jsonFinishKeyFields s flag) := by
  refine .ite (.some own_input) (.bind fun _ => .bind fun _ => .ite (.some own_input) ?_)
  split
  · exact .bind fun _ => .bind fun _ => .some own_ok
  · exact .some own_ok

theorem saltCliParseKeyJsonObjectStrict_own (json : Option Bytes) (io : KeyOut) :
    Gives Own (saltCliParseKeyJsonObjectStrict json io) := by
  unfold saltCliParseKeyJsonObjectStrict
  split
  · refine .ite (.some own_input) (.bind fun text => ?_)
    split
    · exact .none
    · refine .ite (.some own_input) (.bind fun text => ?_)
      split
      · exact .none
      · refine .ite (.some own_input) (.bind fun ⟨rc, s⟩ => .ite (.some own_input)
          (.bind fun text => ?_))
        split
        · exact .none
        · exact .ite (.some own_input) (jsonFinishKeyFields_own s false)
  · exact .some own_input

theorem saltCliParseKeyInput_own (keyInput : Option Bytes) (keyFormat : KeyFormat) (io : KeyOut) :
    Gives Own (saltCliParseKeyInput keyInput keyFormat io) := by
  unfold saltCliParseKeyInput
  split
  · refine .ite (.some own_input) (.bind fun text => ?_)
    split
    · exact .none
    · refine .ite (fun r hr => ?_) (saltCliParseKeyJsonObjectStrict_own _ _)
      obtain ⟨⟨rc, keyB64, error⟩, hcopy, hr⟩ := Option.bind_eq_some_iff.1 hr
      rw [← Option.some.inj hr]
      exact saltCliCopyBase64KeyInput_own _ _ _ _ hcopy
  · exact .some own_input

theorem parseKeyOfState_own : Calmly Own parseKeyOfState :=
  calmly_of_plain parseKeyOfState_plain fun w => by
    have hparse := saltCliParseKeyInput_own (w.state.trimmedKeyInput.map (blockBytes w))
      w.state.keyFormat
      ⟨some w.state.parsedKeyB64, some w.state.parsedKeyId, some w.state.parsedHasKeyId,
        some w.state.error⟩
    unfold parseKeyOfState
    simp only [step_value]
    cases hp : parseTrimmedKey w with
    | none => exact own_internal
    | some r => exact hparse r hp

theorem reportIfInterrupted_own : Calmly Own reportIfInterrupted :=
  orReport_own (saltCliCheckInterrupted_calmly.mono fun _ h => h ▸ own_ok) (.ret own_ok)

theorem saltCliInputLoadKeyInput_own : Calmly Own saltCliInputLoadKeyInput :=
  andThen_own (calmly_then getState_plain fun _ =>
      .ite (fun _ => loadKeyFromStdin_own) fun _ => .ret own_ok)
    (andThen_own copyKeyOption_own (orReport_own parseKeyOfState_own reportIfInterrupted_own))

theorem loadPlaintextFromStdin_own : Calmly Own loadPlaintextFromStdin := by
  refine (cliInputReadStreamLimited_own _).bind fun ⟨rc, block⟩ hrc => ?_
  cases block with
  | none => exact saltCliReportStateError_own rc hrc
  | some block => exact calmly_then (modifyState_plain _) fun _ => .ret own_ok

theorem saltCliInputLoadPlaintext_own : Calmly Own saltCliInputLoadPlaintext :=
  andThen_own (calmly_then getState_plain fun _ =>
      .ite (fun _ => loadPlaintextFromStdin_own) fun _ => saltCliLoadPlaintextFromArgv_own _)
    (andThen_own reportIfInterrupted_own (calmly_then getState_plain fun _ =>
      .ite (fun _ => saltCliReportStreamStatus_own _ _ _ own_input) fun _ => .ret own_ok))

theorem saltCliSealImpl_own : Calmly Own saltCliSealImpl :=
  calmly_of_beside saltCliSealImpl_beside fun w _ => by
    change Own (sealState w).status
    rw [sealState, saltSealBase64, (sealContract ..).status]
    cases firstFailure .. with
    | none => exact own_ok
    | some stage => cases stage <;> exact ⟨by decide, by decide⟩

theorem checkSealed_own : Calmly Own checkSealed :=
  saltCliCheckInterrupted_calmly.bind fun _ hrc => calmly_then markSealPoll_plain fun _ =>
    calmly_ok hrc (calmly_then getState_plain fun _ =>
      .ite (fun _ => saltCliReportStreamStatus_own _ _ _ own_internal) fun _ => .ret own_ok)

theorem saltCliPrepareOutput_own : Calmly Own saltCliPrepareOutput := by
  refine calmly_then (modifyState_plain _) fun _ => calmly_then (Plain.read fun _ => rfl)
    fun outputSize => .ite (fun _ => saltCliReportStreamStatus_own _ _ _ own_internal) fun _ =>
      (saltCliAllocImpl_calmly _).bind fun output _ => ?_
  cases output with
  | none => exact saltCliReportStreamStatus_own _ _ _ own_internal
  | some output =>
    exact calmly_then (modifyState_plain _) fun _ => calmly_then (sodiumMlock_plain _) fun _ =>
      orReport_own saltCliSealImpl_own checkSealed_own

theorem cliStreamWrite_calmly (data : Bytes) : Calmly (fun rc => rc = .ok) (cliStreamWrite data) :=
  (vfprintf_calmly .out data).bind fun ok hok => by
    subst hok
    exact .ret rfl

theorem cliStreamFlush_calmly : Calmly (fun rc => rc = .ok) cliStreamFlush :=
  (fflush_calmly .out).bind fun ok hok => (ferror_calmly .out).bind fun failed hfailed => by
    subst hok hfailed
    exact .ret rfl

/-- `if (rc != SALT_OK) return SALT_ERR_IO;` -/
theorem ioThen_calmly {m n : Cli SaltStatus} (hm : Calmly (fun rc => rc = .ok) m)
    (hn : Calmly (fun rc => rc = .ok) n) : Calmly (fun rc => rc = .ok) (do
      let rc ← m
      if rc ≠ .ok then return .errIo else n) :=
  hm.bind fun _ hrc => calmly_ok hrc hn

theorem writeJsonByte_calmly (c : UInt8) : Calmly (fun rc => rc = .ok) (writeJsonByte c) :=
  .ite (fun _ => ioThen_calmly (cliStreamWrite_calmly _) (cliStreamWrite_calmly _)) fun _ =>
    .ite (fun _ => cliStreamWrite_calmly _) fun _ => .ite (fun _ => cliStreamWrite_calmly _) fun _ =>
      .ite (fun _ => cliStreamWrite_calmly _) fun _ => .ite (fun _ => cliStreamWrite_calmly _)
        fun _ => cliStreamWrite_calmly _

theorem writeJsonBytes_calmly (bytes : Bytes) :
    Calmly (fun rc => rc = .ok) (writeJsonBytes bytes) := by
  induction bytes with
  | nil => exact cliStreamWrite_calmly _
  | cons c cursor ih => exact ioThen_calmly (writeJsonByte_calmly c) ih

theorem writeJsonString_calmly (value : CString) :
    Calmly (fun rc => rc = .ok) (writeJsonString value) :=
  ioThen_calmly (cliStreamWrite_calmly _) (writeJsonBytes_calmly _)

theorem emitText_calmly (value : CString) : Calmly (fun rc => rc = .ok) (emitText value) :=
  ioThen_calmly (cliStreamWrite_calmly _) cliStreamFlush_calmly

theorem emitJson_calmly (value keyId : CString) :
    Calmly (fun rc => rc = .ok) (emitJson value keyId) :=
  ioThen_calmly (ioThen_calmly (cliStreamWrite_calmly _) (ioThen_calmly (cliStreamWrite_calmly _)
    (ioThen_calmly (writeJsonString_calmly value) (ioThen_calmly (cliStreamWrite_calmly _)
      (ioThen_calmly (writeJsonString_calmly keyId)
        (ioThen_calmly (cliStreamWrite_calmly _) (.ret rfl))))))) cliStreamFlush_calmly

theorem emitError_own (message : Bytes) : Calmly Own (emitError message) :=
  calmly_then (modifyState_plain _) fun _ => .ret own_input

theorem saltCliEmitOutput_own (mode : OutputMode) (value : CString) (keyId : Option CString) :
    Calmly Own (saltCliEmitOutput mode value keyId) := by
  have hown {m : Cli SaltStatus} (h : Calmly (fun rc => rc = .ok) m) : Calmly Own m :=
    h.mono fun _ hrc => hrc ▸ own_ok
  refine .ite (fun _ => hown (emitText_calmly value)) fun _ => ?_
  cases keyId with
  | none => exact emitError_own _
  | some keyId =>
    exact .ite (fun _ => emitError_own _) fun _ => .ite (fun _ => emitError_own _) fun _ =>
      hown (emitJson_calmly value keyId)

theorem emitStage_own : Calmly Own emitStage :=
  calmly_then getState_plain fun _ => calmly_then (Plain.read fun _ => rfl) fun _ =>
    (saltCliEmitOutput_own _ _ _).bind fun rc hrc => .ite (fun _ => reportOrIo_own rc hrc) fun _ =>
      .ret own_ok

theorem encryptStages_own : Calmly Own encryptStages :=
  andThen_own saltCliInputLoadKeyInput_own (andThen_own saltCliInputLoadPlaintext_own
    (andThen_own saltCliPrepareOutput_own emitStage_own))

theorem saltCliHandleOption_own (event : OptEvent) : Calmly Own (saltCliHandleOption event) := by
  refine calmly_then getState_plain fun s => ?_
  cases handleOption s event with
  | ok s => exact calmly_then (modifyState_plain _) fun _ => .ret own_ok
  | error text => exact saltCliReportStreamStatus_own _ _ _ own_input

theorem handleOptions_own (events : List OptEvent) : Calmly Own (handleOptions events) := by
  induction events with
  | nil => exact .ret own_ok
  | cons event rest ih => exact andThen_own (saltCliHandleOption_own event) ih

theorem printUsage_calmly (stream : Sink) (program : CString) :
    Calmly (fun rc => rc = .ok) (printUsage stream program) :=
  saltCliWriteStream_calmly _ _ _ _

theorem reportWithUsage_own (program : CString) (text : Bytes) :
    Calmly Own (reportWithUsage program text) :=
  (saltCliReportStreamStatus_own true text .errInput own_input).bind fun _ hrc =>
    .ite (fun hio => absurd hio hrc.1) fun _ => (printUsage_calmly .err program).bind fun _ hok =>
      .ite (fun _ => .ret own_input) fun hne => absurd hok hne

theorem checkOptions_own (inv : Invocation) : Calmly Own (checkOptions inv) :=
  calmly_then getState_plain fun _ => .ite (fun _ => reportWithUsage_own _ _) fun _ =>
    .ite (fun _ => saltCliReportStreamStatus_own _ _ _ own_input) fun _ =>
      .ite (fun _ => saltCliReportStreamStatus_own _ _ _ own_input) fun _ =>
        .ite (fun _ => calmly_then (modifyState_plain _) fun _ => reportWithUsage_own _ _) fun _ =>
          calmly_then (modifyState_plain _) fun _ => calmly_then getState_plain fun _ =>
            .ite (fun _ => saltCliReportStreamStatus_own _ _ _ own_input) fun _ => .ret own_ok

theorem saltCliArgsParseArguments_own (inv : Invocation) :
    Calmly Own (saltCliArgsParseArguments inv) :=
  andThen_own (handleOptions_own _) (calmly_then getState_plain fun _ =>
    .ite (fun _ => (printUsage_calmly .out _).mono fun _ hrc => hrc ▸ own_ok) fun _ =>
      .ite (fun _ => calmly_then (Plain.read fun _ => rfl) fun _ =>
        (saltCliWriteStream_calmly _ _ _ _).mono fun _ hrc => hrc ▸ own_ok) fun _ =>
          checkOptions_own inv)

theorem finishArguments_own (s : CliState) {rc : SaltStatus} (hrc : Own rc) :
    Calmly Own (finishArguments s rc) :=
  .ite (fun _ => (calmly_of_beside writeStateError_beside (P := fun _ => True) fun _ _ => trivial).bind
    fun _ _ => .ret hrc) fun _ => .ret hrc

theorem runArguments_own (inv : Invocation) : Calmly Own (runArguments inv) :=
  (saltCliArgsParseArguments_own inv).bind fun _ hrc => calmly_then getState_plain fun s =>
    .ite (fun _ => finishArguments_own s hrc) fun _ => encryptStages_own

theorem installStage_calmly (manageSignals : Bool) :
    Calmly (fun rc => rc = .ok ∨ rc = .errInternal) (installStage manageSignals) :=
  .ite (fun _ => calmly_then saltCliEnsureSignalHandlers_plain fun _ =>
    .ite (fun _ => .bind (P := fun rc => rc = .errInternal)
      (calmly_of_plain (saltCliSetError_plain ..) fun _ => rfl) fun _ hrc =>
        (calmly_of_passes (reportOrIo_beside _) (reportOrIo_passes _)).mono fun _ h =>
          .inr (h.trans hrc)) fun _ => .ret (.inl rfl)) fun _ => .ret (.inl rfl)

theorem installStage_own (manageSignals : Bool) : Calmly Own (installStage manageSignals) :=
  (installStage_calmly manageSignals).mono fun _ hrc => by
    rcases hrc with rfl | rfl
    · exact own_ok
    · exact own_internal

theorem saltCliRunWithStreamsInternal_own (inv : Invocation) (nullStream manageSignals : Bool) :
    Calmly Own (saltCliRunWithStreamsInternal inv nullStream manageSignals) :=
  .ite (fun _ => .ret own_input) fun _ => calmly_then saltCliStateInit_plain fun _ =>
    (andThen_own (installStage_own manageSignals)
      (calmly_then saltCliResetInterrupted_plain fun _ => runArguments_own inv)).bind
        fun _ hrc => calmly_then (cleanupRun_plain manageSignals) fun _ => .ret hrc

/-- Whatever allocations fail, signals arrive and streams break: `SALT_ERR_IO` comes from a call on
a stream that failed in the run, and `SALT_ERR_SIGNAL` from a signal that arrived in it. -/
theorem saltCliRunWithStreamsInternal_blames (inv : Invocation) (nullStream manageSignals : Bool)
    (w : World) :
    let r := saltCliRunWithStreamsInternal inv nullStream manageSignals w
    (r.value = .errIo → InputFailed w.input r.final.input ∨
      ∃ sink, OutputFailed (w.sink sink) (r.final.sink sink)) ∧
    (r.value = .errSignal →
      ∃ t s, w.clock ≤ t ∧ t < r.final.clock ∧ w.env.signals t s = true) := by
  intro r
  obtain ⟨⟨hio, hsignal⟩, -⟩ :=
    saltCliRunWithStreamsInternal_own inv nullStream manageSignals (faultless w) (faultless_calm w)
  rcases (saltCliRunWithStreamsInternal_answers inv nullStream manageSignals w).answer
    with ⟨hvalue, -⟩ | hblamed
  · rw [hvalue] at hio hsignal
    exact ⟨fun h => absurd h hio, fun h => absurd h hsignal⟩
  · refine ⟨fun h => ?_, fun h => ?_⟩
    · rw [h] at hblamed
      cases hblamed with
      | input hfailed => exact .inl hfailed
      | output sink hfailed => exact .inr ⟨sink, by cases sink <;> exact hfailed⟩
    · rw [h] at hblamed
      cases hblamed with
      | signal hseen =>
        obtain ⟨t, hle, hlt, s, hs⟩ := hseen.resolve_left Bool.false_ne_true
        exact ⟨t, s, hle, hlt, hs⟩

end Salt.CalmRun
