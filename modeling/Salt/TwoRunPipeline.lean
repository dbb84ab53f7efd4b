import Salt.TwoRunStages

set_option autoImplicit false

/-!
# Two runs from the key to the cleanup

The seal is where the runs may differ: what it writes depends on the plaintext.
All the rest of the run follows from seals that go the same way.
-/
namespace Salt.TwoRunPipeline
open ByteStrings BlockHeap TracedState Sealing PreparationCorrect Tracking ReportingCorrect Ownership
  RunCorrect TwoRuns TwoRunStages

structure SameSealed (exact : Prop) (r r' : SealResult) : Prop where
  status : r.status = r'.status
  written : r.outputWritten = r'.outputWritten
  error : r.error = r'.error
  output : ∃ b b', r.output = some b ∧ r'.output = some b' ∧ Fits exact b b' ∧
    (r.status = .ok → SameWrites exact (cstr b) (cstr b'))

section Seal
variable {K : Known} {k k' j : ℕ} {w w' : World} {b b' : Bytes} {s : CliState}

def SameOutput (exact : Prop) (w w' : World) : Prop :=
  SameWrites exact (outputValue w).bytes (outputValue w').bytes

theorem outputValue_eq {w : World} {id : ℕ} {bytes : Bytes} (hs : w.state.output = some id)
    (hb : blockBytes w id = bytes) : (outputValue w).bytes = cstr bytes := by
  rw [outputValue, hs, ← hb]
  rfl

theorem saltCliSealImpl_jointly (h : Holding K k k' j b b' s w w') (hs : s.output = some j)
    (hsealed : SameSealed K.exact (sealState w) (sealState w')) :
    Jointly saltCliSealImpl saltCliSealImpl w w' fun rc rc' u u' =>
      rc = rc' ∧ Alike K k k' u u' ∧ (rc = .ok → SameOutput K.exact u u') := by
  obtain ⟨c, c', hc, hc', hfits, hwrites⟩ := hsealed.output
  have hout : w.state.output = some (k + j) := by
    rw [h.state]
    exact congrArg (Option.map (k + ·)) hs
  have hout' : w'.state.output = some (k' + j) := by
    rw [h.state']
    exact congrArg (Option.map (k' + ·)) hs
  have hrun (w : World) (id : ℕ) (bytes : Bytes) (hid : w.state.output = some id)
      (hbytes : (sealState w).output = some bytes) : (saltCliSealImpl w).final =
        (record (.seal w.state.messageLen) { setBlockBytes id bytes w.deliver with
          state := withSealed (sealState w) w.state }).tick := by
    have hid' : w.deliver.state.output = some id := hid
    have hbytes' : (sealState w.deliver).output = some bytes := hbytes
    simp only [saltCliSealImpl, atomic, step_final, hid', hbytes']
    rfl
  have hsealed_eq (r : SealResult) (hw : r.outputWritten = (sealState w).outputWritten)
      (he : r.error = (sealState w).error) (n : ℕ) :
      withSealed r (moved n s) = moved n (withSealed (sealState w) s) := by
    simp only [withSealed, hw, he]
    rfl
  have hblocks := h.alike.deliver.modifyBlocks j (Block.edit fun _ => c) (Block.edit fun _ => c')
    fun _ _ _ _ => hfits
  have ha := (hblocks.withState (withSealed (sealState w) s)).tick
  rw [← hsealed_eq _ rfl rfl, ← hsealed_eq _ hsealed.written.symm hsealed.error.symm, ← h.state,
    ← h.state'] at ha
  obtain ⟨n, hn, hn'⟩ := h.alike.size
  have hinside := h.inside
  have hinside' : k' + j < w'.heap.length := by omega
  have hvalue : (outputValue (saltCliSealImpl w).final).bytes = cstr c := by
    rw [hrun w _ _ hout hc]
    exact outputValue_eq hout (blockBytes_edit (w := w.deliver) hinside c)
  have hvalue' : (outputValue (saltCliSealImpl w').final).bytes = cstr c' := by
    rw [hrun w' _ _ hout' hc']
    exact outputValue_eq hout' (blockBytes_edit (w := w'.deliver) hinside' c')
  refine ⟨hsealed.status, ?_, fun hok => ?_⟩
  · rw [hrun w _ _ hout hc, hrun w' _ _ hout' hc']
    exact { ha with disposition := ha.disposition, saved := ha.saved }
  · rw [SameOutput, hvalue, hvalue']
    exact hwrites hok

theorem checkSealed_output (w : World) :
    Ends checkSealed w fun rc u => rc = .ok → (outputValue u).bytes = (outputValue w).bytes := by
  have hpoll : Ends saltCliCheckInterrupted w fun rc u =>
      rc = .ok → (outputValue u).bytes = (outputValue w).bytes :=
    Ends.bind (R := fun _ u => (outputValue u).bytes = (outputValue w).bytes) rfl fun _ _ hu =>
      .ite (fun _ => fun hok => SaltStatus.noConfusion hok) fun _ _ => hu
  refine hpoll.bind fun rc u hu => ?_
  refine Ends.bind (R := fun _ u => rc = .ok → (outputValue u).bytes = (outputValue w).bytes) hu
    fun _ u hu => ?_
  refine .ite (fun hrc => ?_) fun hrc => ?_
  · exact (saltCliReportStateError_ne_ok u hrc).mono fun _ _ hne hok => absurd hok hne
  · refine Ends.bind (R := fun _ u => (outputValue u).bytes = (outputValue w).bytes)
      (hu (not_not.1 hrc)) fun _ u hu => .ite (fun _ => ?_) fun _ _ => hu
    exact (saltCliReportStreamStatus_ne_ok u true (by decide) _).mono
      fun _ _ hne hok => absurd hok hne

theorem checkSealed_paired (hflag : K.flag) : Same K k k' checkSealed checkSealed := by
  have hmark : Same K k k' markSealPoll markSealPoll := ghost_paired fun _ _ h =>
    { h with disposition := h.disposition, saved := h.saved }
  refine (saltCliCheckInterrupted_paired hflag).bind_eq fun _ => hmark.bind_eq fun _ =>
    .ite .rfl (saltCliReportStateError_paired _) ?_
  refine getState_paired.bind ?_
  rintro _ _ ⟨s, rfl, rfl⟩
  exact .ite .rfl (saltCliReportStreamStatus_paired _ _ _ _) (.ret rfl)

end Seal

structure Kept (w u : World) : Prop where
  env : u.env = w.env
  message : u.state.message = w.state.message
  messageLen : u.state.messageLen = w.state.messageLen
  size : w.heap.length ≤ u.heap.length
  blocks : ∀ id < w.heap.length, blockBytes u id = blockBytes w id

section Keeping
variable {w u u' : World}

theorem Kept.trans (h : Kept w u) (h' : Kept u u') : Kept w u' where
  env := h'.env.trans h.env
  message := h'.message.trans h.message
  messageLen := h'.messageLen.trans h.messageLen
  size := h.size.trans h'.size
  blocks id hid := (h'.blocks id (hid.trans_le h.size)).trans (h.blocks id hid)

theorem modifyState_kept (w : World) {f : CliState → CliState}
    (hmessage : (f w.state).message = w.state.message)
    (hlen : (f w.state).messageLen = w.state.messageLen) :
    Ends (modifyState f) w fun _ u => Kept w u :=
  ⟨rfl, hmessage, hlen, le_refl _, fun _ _ => rfl⟩

theorem resolveEffectiveKeyId_moved (n : ℕ) (s : CliState) :
    resolveEffectiveKeyId (moved n s) = moved n (resolveEffectiveKeyId s) := by
  unfold resolveEffectiveKeyId
  rw [show (moved n s).keyIdOption = s.keyIdOption from rfl]
  cases s.keyIdOption with
  | none =>
    dsimp only
    rw [apply_ite (moved n)]
    rfl
  | some keyId =>
    dsimp only
    rw [apply_ite (moved n), apply_ite (moved n)]
    rfl

theorem resolve_kept (w : World) : Ends saltCliResolveEffectiveKeyId w fun _ u => Kept w u := by
  obtain ⟨id, hid⟩ := resolveEffectiveKeyId_eq w.state
  exact modifyState_kept w (by rw [hid]) (by rw [hid])

theorem saltCliAllocImpl_kept (w : World) (size : ℕ) :
    Ends (saltCliAllocImpl size) w fun _ u => Kept w u := by
  unfold saltCliAllocImpl atomic Ends
  simp only [step_final]
  cases w.deliver.env.alloc w.deliver.clock with
  | none => exact ⟨rfl, rfl, rfl, le_refl _, fun _ _ => rfl⟩
  | some content =>
    refine ⟨rfl, rfl, rfl, ?_, fun id hid => ?_⟩
    · change w.heap.length ≤ (w.heap ++ _).length
      rw [List.length_append]
      exact Nat.le_add_right _ _
    · exact bytesAt_append_of_lt _ hid

end Keeping

section Preparation
variable {K : Known} {k k' : ℕ} {w w' : World}

/-- The seals of two runs go the same way, wherever the output blocks are. -/
def SealsAlike (K : Known) (k k' : ℕ) (w w' : World) : Prop :=
  ∀ (j : ℕ) (b b' : Bytes) (s : CliState) (u u' : World), Holding K k k' j b b' s u u' →
    s.output = some j → Kept w u → Kept w' u' →
    b.length = saltRequiredBase64OutputLen u.env.width s.messageLen → b'.length = b.length →
    SameSealed K.exact (sealState u) (sealState u')

theorem saltCliPrepareOutput_jointly (h : Alike K k k' w w') (hflag : K.flag)
    (hseals : SealsAlike K k k' w w') :
    Jointly saltCliPrepareOutput saltCliPrepareOutput w w' fun rc rc' u u' =>
      rc = rc' ∧ Alike K k k' u u' ∧ (rc = .ok → SameOutput K.exact u u') := by
  obtain ⟨s, hs, hs'⟩ := h.state
  refine ((modifyState_jointly h (resolveEffectiveKeyId s) (by rw [hs, resolveEffectiveKeyId_moved])
    (by rw [hs', resolveEffectiveKeyId_moved])).and_ends (resolve_kept w) (resolve_kept w')).bind ?_
  rintro _ _ u u' ⟨⟨hu, hs₁, hs₁'⟩, hkept, hkept'⟩
  have hsize : saltRequiredBase64OutputLen u.env.width u.state.messageLen =
      saltRequiredBase64OutputLen u'.env.width u'.state.messageLen := by
    rw [hu.env.width, hs₁, hs₁']
    rfl
  refine Jointly.bind (R := fun n n' x x' =>
    n = saltRequiredBase64OutputLen u.env.width u.state.messageLen ∧
    n' = saltRequiredBase64OutputLen u.env.width u.state.messageLen ∧ u = x ∧ u' = x')
    ⟨rfl, hsize.symm, rfl, rfl⟩ ?_
  rintro _ _ _ _ ⟨rfl, rfl, rfl, rfl⟩
  refine .ite .rfl (fun _ => saltCliReportStreamStatus_jointly hu true (by decide) _) fun _ => ?_
  refine ((saltCliAllocImpl_holding hu hs₁ hs₁' _).and_ends (saltCliAllocImpl_kept u _)
    (saltCliAllocImpl_kept u' _)).bind ?_
  rintro _ _ x x' ⟨⟨rfl, rfl, hx⟩ | ⟨j, b, b', rfl, rfl, hb, hb', h₁⟩, hkept₁, hkept₁'⟩
  · exact saltCliReportStreamStatus_jointly hx true (by decide) _
  refine ((modifyState_holding h₁ { resolveEffectiveKeyId s with
    output := some j, outputCap := saltRequiredBase64OutputLen u.env.width u.state.messageLen }
    rfl rfl).and_ends (modifyState_kept x rfl rfl) (modifyState_kept x' rfl rfl)).bind ?_
  rintro _ _ x₁ x₁' ⟨h₂, hkept₂, hkept₂'⟩
  have hmlock (w : World) (len : ℕ) : Ends (sodiumMlock len) w fun _ u => Kept w u :=
    ⟨rfl, rfl, rfl, le_refl _, fun _ _ => rfl⟩
  refine ((sodiumMlock_holding h₂ _).and_ends (hmlock x₁ _) (hmlock x₁' _)).bind ?_
  rintro _ _ x₂ x₂' ⟨h₃, hkept₃, hkept₃'⟩
  have hall : Kept u x₂ := (hkept₁.trans hkept₂).trans hkept₃
  have hall' : Kept u' x₂' := (hkept₁'.trans hkept₂').trans hkept₃'
  have hsame := hseals j b b' _ x₂ x₂' h₃ rfl (hkept.trans hall) (hkept'.trans hall')
    (by rw [hb, hall.env, hs₁]; rfl) (hb'.trans hb.symm)
  refine (saltCliSealImpl_jointly h₃ rfl hsame).bind ?_
  rintro rc _ x₃ x₃' ⟨rfl, h₄, hout⟩
  refine .ite .rfl (fun hrc => saltCliReportStateError_jointly h₄ hrc) fun hrc => ?_
  · have hcheck : Jointly checkSealed checkSealed x₃ x₃' fun rc rc' u u' =>
        rc = rc' ∧ Alike K k k' u u' := checkSealed_paired hflag x₃ x₃' h₄
    refine (hcheck.and_ends (checkSealed_output x₃) (checkSealed_output x₃')).mono ?_
    rintro rc₁ _ _ _ ⟨⟨rfl, ha⟩, hkeeps, hkeeps'⟩
    refine ⟨rfl, ha, fun hok => ?_⟩
    rw [SameOutput, hkeeps hok, hkeeps' hok]
    exact hout (not_not.1 hrc)

/-- Runs that share every byte seal alike. -/
theorem sealsAlike_of_exact (he : K.exact) : SealsAlike K k k' w w' := by
  intro j b b' s u u' h hs _ _ _ _
  have hout (n : ℕ) {u : World} (hu : u.state = moved n s) : u.state.output = some (n + j) := by
    rw [hu]
    exact congrArg (Option.map (n + ·)) hs
  have hmessage : (u.state.message.map fun id => messageBytes (blockBytes u id) u.state.messageLen) =
      u'.state.message.map fun id => messageBytes (blockBytes u' id) u'.state.messageLen := by
    rw [h.state, h.state']
    simp only [moved, Option.map_map]
    refine Option.map_congr fun id _ => ?_
    exact congrArg (messageBytes · s.messageLen) ((h.alike.bytes id).bytes he)
  have hblock : b = b' := by
    rw [← h.block, ← h.block']
    exact (h.alike.bytes j).bytes he
  have houtput : u.state.output.map (blockBytes u) = some b := by
    rw [hout k h.state, Option.map_some, h.block]
  have houtput' : u'.state.output.map (blockBytes u') = some b := by
    rw [hout k' h.state', Option.map_some, h.block', hblock]
  have hequal : sealState u = sealState u' := by
    unfold sealState
    rw [h.alike.env.all he, hmessage, houtput, houtput', h.state, h.state']
    rfl
  obtain ⟨c, hc, -⟩ := Option.map_eq_some_iff.1 (saltSealBase64_output_length u.env.width
    u.env.sodium (some u.state.outputWritten) (some u.state.error)
    (u.state.message.map fun id => messageBytes (blockBytes u id) u.state.messageLen)
    (some (CString.ofBuffer u.state.parsedKeyB64)) b)
  have hseal : (sealState u).output = some c := by
    unfold sealState
    rw [houtput]
    exact hc
  rw [← hequal]
  exact ⟨rfl, rfl, rfl, c, c, hseal, hseal, .refl _ _, fun _ => sameWrites_refl _ _⟩

end Preparation

def behindKey (w : World) : World := (saltCliInputLoadKeyInput w).final

def behindPlaintext (w : World) : World := (saltCliInputLoadPlaintext (behindKey w)).final

section Run
variable {K : Known} {k k' : ℕ} {w w' : World} {inv inv' : Invocation}

theorem ends_self {α : Type} (m : Cli α) (w : World) :
    Ends m w fun a u => (m w).value = a ∧ (m w).final = u := ⟨rfl, rfl⟩

theorem encryptStages_jointly (h : Alike K k k' w w') (hflag : K.flag) (hinput : K.exact → K.input)
    (hkey : SameKey K.exact w w') (hkeyStdin : w.state.keyFromStdin = true → K.stdin ∧ K.input)
    (hstdin : (saltCliInputLoadKeyInput w).value = .ok →
      (behindKey w).state.plaintextFromStdin = true → K.stdin)
    (hseals : (saltCliInputLoadKeyInput w).value = .ok →
      (saltCliInputLoadKeyInput w').value = .ok →
      (saltCliInputLoadPlaintext (behindKey w)).value = .ok →
      (saltCliInputLoadPlaintext (behindKey w')).value = .ok →
      SealsAlike K k k' (behindPlaintext w) (behindPlaintext w')) :
    Jointly encryptStages encryptStages w w' fun rc rc' u u' => rc = rc' ∧ Alike K k k' u u' := by
  refine ((saltCliInputLoadKeyInput_jointly h hkey hkeyStdin hflag).and_ends (ends_self _ w)
    (ends_self _ w')).bind ?_
  rintro rc _ _ _ ⟨⟨rfl, hu⟩, ⟨hrc, rfl⟩, ⟨hrc', rfl⟩⟩
  refine .ite .rfl (fun _ => .ret ⟨rfl, hu⟩) fun hok => ?_
  obtain rfl : rc = .ok := not_not.1 hok
  refine ((saltCliInputLoadPlaintext_jointly hu (hstdin hrc) hinput hflag).and_ends
    (ends_self _ (behindKey w)) (ends_self _ (behindKey w'))).bind ?_
  rintro rc _ _ _ ⟨⟨rfl, hu⟩, ⟨hrc₁, rfl⟩, ⟨hrc₁', rfl⟩⟩
  refine .ite .rfl (fun _ => .ret ⟨rfl, hu⟩) fun hok => ?_
  obtain rfl : rc = .ok := not_not.1 hok
  refine (saltCliPrepareOutput_jointly hu hflag (hseals hrc hrc' hrc₁ hrc₁')).bind ?_
  rintro rc _ u u' ⟨rfl, hu, hout⟩
  exact .ite .rfl (fun _ => .ret ⟨rfl, hu⟩) fun hok => emitStage_jointly hu (hout (not_not.1 hok))

def behindArguments (inv : Invocation) (w : World) : World := (saltCliArgsParseArguments inv w).final

theorem finishArguments_paired (s : CliState) (rc : SaltStatus) :
    Same K k k' (finishArguments s rc) (finishArguments s rc) :=
  .ite .rfl (writeStateError_paired.bind_eq fun _ => .ret rfl) (.ret rfl)

theorem runArguments_jointly (h : Alike K k k' w w') (hcommand : SameCommand inv inv')
    (hstages : (saltCliArgsParseArguments inv w).value = .ok →
      (saltCliArgsParseArguments inv' w').value = .ok →
      ((behindArguments inv w).state.showHelp || (behindArguments inv w).state.showVersion) = false →
      Alike K k k' (behindArguments inv w) (behindArguments inv' w') →
      Jointly encryptStages encryptStages (behindArguments inv w) (behindArguments inv' w')
        fun rc rc' u u' => rc = rc' ∧ Alike K k k' u u') :
    Jointly (runArguments inv) (runArguments inv') w w' fun rc rc' u u' =>
      rc = rc' ∧ Alike K k k' u u' := by
  have hparse : Jointly (saltCliArgsParseArguments inv) (saltCliArgsParseArguments inv') w w'
    fun rc rc' u u' => rc = rc' ∧ Alike K k k' u u' := saltCliArgsParseArguments_paired hcommand w w' h
  refine (hparse.and_ends (ends_self _ w) (ends_self _ w')).bind ?_
  rintro rc _ _ _ ⟨⟨rfl, hu⟩, ⟨hrc, rfl⟩, ⟨hrc', rfl⟩⟩
  obtain ⟨s, hs, hs'⟩ := hu.state
  refine Jointly.bind_read hs hs' ?_
  refine .ite .rfl (fun _ => finishArguments_paired s rc _ _ hu) fun hgo => ?_
  rw [Bool.or_assoc, Bool.or_eq_true, not_or, decide_eq_true_eq, not_not, Bool.not_eq_true] at hgo
  obtain ⟨rfl, hflags⟩ := hgo
  refine hstages hrc hrc' ?_ hu
  rw [show (behindArguments inv w).state = moved k s from hs]
  exact hflags

theorem runStages_jointly (manageSignals : Bool) (h : Alike K k k' w w')
    (harguments : ∀ u u', Alike (K.polled) k k' u u' →
      u = (saltCliResetInterrupted (installStage manageSignals w).final).final →
      u' = (saltCliResetInterrupted (installStage manageSignals w').final).final →
      Jointly (runArguments inv) (runArguments inv') u u' fun rc rc' x x' =>
        rc = rc' ∧ Alike (K.polled) k k' x x') :
    Jointly (runStages inv manageSignals) (runStages inv' manageSignals) w w' fun rc rc' u u' =>
      rc = rc' ∧ Alike K k k' u u' := by
  have hinstall : Jointly (installStage manageSignals) (installStage manageSignals) w w'
    fun rc rc' u u' => rc = rc' ∧ Alike K k k' u u' := installStage_paired manageSignals w w' h
  refine (hinstall.and_ends (ends_self _ w) (ends_self _ w')).bind ?_
  rintro rc _ _ _ ⟨⟨rfl, hu⟩, ⟨-, rfl⟩, ⟨-, rfl⟩⟩
  refine .ite .rfl (fun _ => .ret ⟨rfl, hu⟩) fun _ => ?_
  refine ((saltCliResetInterrupted_jointly hu).and_ends (ends_self _ _) (ends_self _ _)).bind ?_
  rintro _ _ u u' ⟨hu, ⟨-, hfinal⟩, ⟨-, hfinal'⟩⟩
  exact (harguments u u' hu hfinal.symm hfinal'.symm).mono fun _ _ _ _ ⟨heq, ha⟩ => ⟨heq, ha.unpolled⟩

def cleared (w : World) : World := { w with state := zeroState }

theorem saltCliStateInit_cleared (w : World) :
    saltCliStateInit (cleared w) = saltCliStateInit w := rfl

/-- Two runs, from worlds that are alike but for the state, which both runs zero. -/
theorem saltCliRunWithStreamsInternal_jointly (hcommand : SameCommand inv inv')
    (nullStream manageSignals : Bool) (h : Alike K k k' (cleared w) (cleared w'))
    (harguments : ∀ u u', Alike (K.polled) k k' u u' → u = resetWorld manageSignals w →
      u' = resetWorld manageSignals w' →
      Jointly (runArguments inv) (runArguments inv') u u' fun rc rc' x x' =>
        rc = rc' ∧ Alike (K.polled) k k' x x') :
    Jointly (saltCliRunWithStreamsInternal inv nullStream manageSignals)
      (saltCliRunWithStreamsInternal inv' nullStream manageSignals) w w' fun rc rc' u u' =>
        rc = rc' ∧ Alike K k k' (cleared u) (cleared u') := by
  refine .ite (by rw [hcommand.shape]) (fun _ => .ret ⟨rfl, h⟩) fun _ => ?_
  have hinit : Jointly saltCliStateInit saltCliStateInit w w' fun _ _ u u' => Alike K k k' u u' := by
    rw [Jointly, ← saltCliStateInit_cleared w, ← saltCliStateInit_cleared w']
    exact (saltCliStateInit_paired _ _ h).2
  refine (hinit.and_ends (ends_self _ w) (ends_self _ w')).bind ?_
  rintro _ _ _ _ ⟨hu, ⟨-, rfl⟩, ⟨-, rfl⟩⟩
  refine (runStages_jointly manageSignals hu harguments).bind ?_
  rintro rc _ u u' ⟨rfl, hu⟩
  refine Jointly.bind (cleanupRun_paired manageSignals _ _ hu) ?_
  rintro _ _ x x' ⟨-, hx⟩
  exact .ret ⟨rfl, hx.withState zeroState⟩

end Run

end Salt.TwoRunPipeline
