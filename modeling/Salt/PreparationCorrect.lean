import Salt.PlaintextLoading
import Salt.SealingCorrect

set_option autoImplicit false

/-!
# Preparing the output

The output block holds what the library call wrote into it, and the state
points to it. Every other end of the stage is one diagnostic.
-/
namespace Salt.PreparationCorrect
open ByteStrings BlockHeap TracedState Sealing SealingContract SealingCorrect Framing Tracking
  ReportingCorrect Ownership

section Length
variable (W : SizeWidth) (sodium : Sodium) (outputWritten : Option ℕ) (error : Option Bytes)

theorem sealCiphertext_output_length (message output publicKey : Bytes) :
    (sealCiphertext sodium message output outputWritten error publicKey).output.map List.length =
      some output.length := by
  unfold sealCiphertext
  cases sodium.alloc with
  | none => rfl
  | some content =>
    simp only
    split_ifs
    · rfl
    · split
      all_goals exact congrArg some (put_length _ _)

theorem sealLocked_output_length (message publicKeyB64 output : Bytes) :
    (sealLocked W sodium message publicKeyB64 output outputWritten error).output.map List.length =
      some output.length := by
  unfold sealLocked
  simp only
  split_ifs
  · rfl
  · rfl
  · exact sealCiphertext_output_length ..

theorem saltSealBase64Keylen_output_length (message publicKeyB64 : Option Bytes)
    (output : Bytes) :
    (saltSealBase64Keylen W sodium message publicKeyB64 (some output) outputWritten error).output.map
      List.length = some output.length := by
  unfold saltSealBase64Keylen
  simp only
  split_ifs
  · rfl
  · rfl
  · cases message <;> cases publicKeyB64
    case some.some => exact sealLocked_output_length ..
    all_goals rfl

theorem saltSealBase64_output_length (message : Option Bytes) (publicKeyB64 : Option CString)
    (output : Bytes) :
    (saltSealBase64 W sodium message publicKeyB64 (some output) outputWritten error).output.map
      List.length = some output.length :=
  saltSealBase64Keylen_output_length ..

end Length

def sealOf (env : Env) (plaintext : Bytes) (s : CliState) (buffer : Bytes) : SealResult :=
  saltSealBase64 env.width env.sodium (some plaintext) (some (CString.ofBuffer s.parsedKeyB64))
    (some buffer) (some s.outputWritten) (some s.error)

/-- The call succeeds, writes something, and leaves `text` in the output block. -/
structure Produces (env : Env) (plaintext : Bytes) (s : CliState) (buffer text : Bytes) : Prop where
  size : buffer.length = saltRequiredBase64OutputLen env.width plaintext.length
  status : (sealOf env plaintext s buffer).status = .ok
  written : (sealOf env plaintext s buffer).outputWritten ≠ some 0
  output : (sealOf env plaintext s buffer).output = some text

structure Prepared (env : Env) (v : View) (plaintext : Bytes) (v' : View) : Prop where
  state : ∃ cap written, v'.state = { resolveEffectiveKeyId v.state with
    output := some v.heap.length
    outputCap := cap
    outputWritten := written }
  output : ∃ buffer, Produces env plaintext v.state buffer (bytesAt v'.heap v.heap.length)
  tidy : Tidy v'.state v'.heap
  positionals : v'.positionals = v.positionals
  err : v'.err = v.err
  undefined : v'.undefined = v.undefined

section Prepare
variable {w₀ w : World} {v : View} {plaintext : Bytes} {id : ℕ}

theorem resolveEffectiveKeyId_eq (s : CliState) :
    ∃ keyId, resolveEffectiveKeyId s = { s with effectiveKeyId := keyId } := by
  unfold resolveEffectiveKeyId
  split
  · split_ifs
    · exact ⟨_, rfl⟩
    · exact ⟨_, rfl⟩
    · exact ⟨_, rfl⟩
  · split_ifs
    · exact ⟨_, rfl⟩
    · exact ⟨_, rfl⟩

theorem saltCliSealImpl_sealed (h : Tracks w₀ v w) (hmessage : v.state.message = some id)
    (hbytes : messageBytes (bytesAt v.heap id) v.state.messageLen = plaintext) {output : ℕ}
    (houtput : v.state.output = some output) :
    Ends saltCliSealImpl w fun rc w' => ∃ bytes,
      rc = (sealOf w₀.env plaintext v.state (bytesAt v.heap output)).status ∧
      (sealOf w₀.env plaintext v.state (bytesAt v.heap output)).output = some bytes ∧
      bytes.length = (bytesAt v.heap output).length ∧
      Tracks w₀ { v with
        state := withSealed (sealOf w₀.env plaintext v.state (bytesAt v.heap output)) v.state
        heap := v.heap.modify output (Block.edit fun _ => bytes) } w' := by
  obtain ⟨bytes, hout, hlen⟩ := Option.map_eq_some_iff.1
    (saltSealBase64_output_length w₀.env.width w₀.env.sodium (some v.state.outputWritten)
      (some v.state.error) (some plaintext) (some (CString.ofBuffer v.state.parsedKeyB64))
      (bytesAt v.heap output))
  have hcall : sealState w.deliver = sealOf w₀.env plaintext v.state (bytesAt v.heap output) := by
    obtain ⟨rfl, henv, -, -⟩ := h
    change w.state.message = some id at hmessage
    change w.state.output = some output at houtput
    change saltSealBase64 w.env.width w.env.sodium (w.state.message.map fun id =>
      messageBytes (blockBytes w id) w.state.messageLen) _ (w.state.output.map (blockBytes w)) _ _ = _
    rw [hmessage, houtput, henv, ← hbytes]
    rfl
  have hout' : (sealOf w₀.env plaintext v.state (bytesAt v.heap output)).output = some bytes := hout
  have houtput' : w.deliver.state.output = some output := by
    rw [← houtput, ← h.state]
    rfl
  refine ⟨bytes, ?_, hout, hlen, h.after saltCliSealImpl_internal ?_⟩
  · rw [← hcall]
    rfl
  · simp only [saltCliSealImpl, atomic, step_final, houtput', hcall, hout']
    obtain ⟨rfl, -, -, -⟩ := h
    rfl

theorem messageBytes_length (block : Bytes) (n : ℕ) : (messageBytes block n).length = n := by
  rw [messageBytes, List.length_append, List.length_take, List.length_replicate]
  omega

theorem tidy_output {s : CliState} {heap : Heap} {bytes : Bytes} {n : ℕ} (ht : Tidy s heap)
    (hslot : s.output = none) (hlen : bytes.length = n) (hpos : 0 < n) :
    Tidy { s with output := some heap.length, outputCap := n } (heap ++ [⟨n, bytes, []⟩]) :=
  ht.adopt (o := .output) hslot hlen hpos (funext fun o => by cases o <;> rfl)
    (funext fun o => by cases o <;> rfl) rfl rfl rfl

theorem saltSealBase64_reported (W : SizeWidth) (sodium : Sodium) (message : Option Bytes)
    (publicKeyB64 : Option CString) (output : Option Bytes) (outputWritten : Option ℕ)
    (error : Option Bytes) :
    let r := saltSealBase64 W sodium message publicKeyB64 output outputWritten error
    (r.status = .ok → r.error = error ∧ ∃ n, r.outputWritten = outputWritten.map fun _ => n) ∧
      (r.status ≠ .ok → Reported error r.error) := by
  have hcontract := sealContract W sodium message (publicKeyB64.map fun s =>
    s.bytes.take (saltBoundedStrlen publicKeyB64 (maxPublicKeyB64Len W + 1))) output outputWritten error
  refine ⟨fun hok => ⟨hcontract.error_kept hok, ?_⟩, hcontract.error_reported⟩
  obtain ⟨text, -, hwritten⟩ := hcontract.written hok
  exact ⟨_, hwritten⟩

theorem sealOf_error (env : Env) (plaintext : Bytes) {s : CliState} (buffer : Bytes)
    (hsize : s.error.length = errorSize) (hrc : (sealOf env plaintext s buffer).status ≠ .ok) :
    ∃ error, (sealOf env plaintext s buffer).error = some error ∧ error.length = s.error.length ∧
      cstr error ≠ [] := by
  obtain ⟨error, herror, hlen, -, hne⟩ := (saltSealBase64_reported env.width env.sodium
    (some plaintext) (some (CString.ofBuffer s.parsedKeyB64)) (some buffer) (some s.outputWritten)
    (some s.error)).2 hrc s.error rfl (by rw [hsize]; decide)
  exact ⟨error, herror, hlen, hne⟩

/-- Why the library could not produce an output for this plaintext and key. -/
def Unsealable (env : Env) (plaintext : Bytes) (s : CliState) : Prop :=
  ∃ buffer : Bytes, buffer.length = saltRequiredBase64OutputLen env.width plaintext.length ∧
    ((sealOf env plaintext s buffer).status ≠ .ok ∨
      (sealOf env plaintext s buffer).outputWritten = some 0)

def allocatedView (v : View) (size : ℕ) (content : ℕ → UInt8) : View :=
  { v with
    state := resolveEffectiveKeyId v.state
    heap := v.heap ++ [⟨size, fresh content size, []⟩] }

theorem markSealPoll_tracks (h : Tracks w₀ v w) :
    Ends markSealPoll w fun _ w' => Tracks w₀ v w' :=
  h.moved (g := fun v => v) markSealPoll_internal fun _ => rfl

theorem checkSealed_checked (h : Tracks w₀ v w) (ht : Tidy v.state v.heap) :
    Ends checkSealed w fun rc w' =>
      (rc = .ok ∧ v.state.outputWritten ≠ 0 ∧ Tracks w₀ v w') ∨
      (Failed v.err v.undefined v.positionals rc w' ∧ (FaultFree w₀ → v.state.outputWritten = 0)) := by
  refine (saltCliCheckInterrupted_tracks h).bind fun rc w₁ hpoll => ?_
  rcases hpoll with ⟨rfl, h₁⟩ | ⟨rfl, hfault, h₁⟩
  · refine (markSealPoll_tracks h₁).bind fun _ w₂ h₂ => ?_
    refine (getState_tracks h₂).bind fun s w₃ ⟨hs, h₃⟩ => ?_
    subst hs
    refine .ite (fun hzero => ?_) fun hpos => .ret (.inl ⟨rfl, hpos, h₃⟩)
    exact (saltCliReportStreamStatus_failed h₃ true (by decide)
      ⟨ascii "produced empty output", by decide, .inl (by decide)⟩ ht).mono
      fun _ _ hf => .inr ⟨hf, fun _ => hzero⟩
  · refine (markSealPoll_tracks h₁).bind fun _ w₂ h₂ => ?_
    exact (saltCliReportStateError_failed h₂ (by decide)
      (cstr_withError ht.error (by decide)) (ht.message _)).mono
      fun _ _ hf => .inr ⟨hf, fun h₀ => absurd h₀ hfault⟩

theorem tidy_resolved {s : CliState} {heap : Heap} (ht : Tidy s heap) :
    Tidy (resolveEffectiveKeyId s) heap := by
  obtain ⟨keyId, hkeyId⟩ := resolveEffectiveKeyId_eq s
  rw [hkeyId]
  exact ht.congr (funext fun o => by cases o <;> rfl) (fun o _ => by cases o <;> rfl) rfl rfl rfl

theorem sealIntoOutput_prepared {content : ℕ → UInt8} {size : ℕ}
    (h : Tracks w₀ (allocatedView v size content) w) (ht : Tidy v.state v.heap)
    (hslot : v.state.output = none) (hmessage : v.state.message = some id)
    (hid : id < v.heap.length)
    (hbytes : messageBytes (bytesAt v.heap id) v.state.messageLen = plaintext) (hpos : 0 < size)
    (hsize : size = saltRequiredBase64OutputLen w₀.env.width plaintext.length) :
    Ends (sealIntoOutput v.heap.length size) w fun rc w' =>
      (rc = .ok ∧ ∃ v', Prepared w₀.env v plaintext v' ∧ Tracks w₀ v' w') ∨
      (Failed v.err v.undefined v.positionals rc w' ∧
        (FaultFree w₀ → Unsealable w₀.env plaintext v.state)) := by
  obtain ⟨keyId, hkeyId⟩ := resolveEffectiveKeyId_eq v.state
  have ht₁ := tidy_resolved ht
  rw [allocatedView, hkeyId] at h
  rw [hkeyId] at ht₁
  have hbuffer := bytesAt_append v.heap ⟨size, fresh content size, []⟩
  refine (modifyState_tracks h _).bind fun _ w₁ h₁ => ?_
  refine (sodiumMlock_tracks h₁ _).bind fun _ w₂ h₂ => ?_
  rw [← bytesAt_append_of_lt ⟨size, fresh content size, []⟩ hid] at hbytes
  refine (saltCliSealImpl_sealed h₂ hmessage hbytes rfl).bind
    fun rc w₃ ⟨bytes, hrc, hout, hlen, h₃⟩ => ?_
  rw [hbuffer] at hrc hout hlen h₃
  change rc = (sealOf w₀.env plaintext v.state (fresh content size)).status at hrc
  change (sealOf w₀.env plaintext v.state (fresh content size)).output = some bytes at hout
  change Tracks w₀ { v with
    state := withSealed (sealOf w₀.env plaintext v.state (fresh content size)) { v.state with
      effectiveKeyId := keyId, output := some v.heap.length, outputCap := size }
    heap := (v.heap ++ [Block.mk size (fresh content size) []]).modify v.heap.length
      (Block.edit fun _ => bytes) } w₃ at h₃
  rw [modify_append] at h₃
  rw [show (Block.mk size (fresh content size) []).bytes = fresh content size from rfl,
    fresh_length] at hlen
  have hlength : (fresh content size).length =
      saltRequiredBase64OutputLen w₀.env.width plaintext.length := by rw [fresh_length, hsize]
  have ht₂ := tidy_output ht₁ hslot hlen hpos
  have ht₃ (r : SealResult) (herror : (r.error.getD v.state.error).length = v.state.error.length) :
      Tidy (withSealed r { v.state with
        effectiveKeyId := keyId, output := some v.heap.length, outputCap := size })
        (v.heap ++ [⟨size, bytes, []⟩]) :=
    ht₂.congr (funext fun o => by cases o <;> rfl) (fun o _ => by cases o <;> rfl) rfl rfl herror
  refine .ite (fun hne => ?_) fun hok => ?_
  · rw [hrc] at hne
    obtain ⟨error, herror, herrlen, hmessage⟩ :=
      sealOf_error w₀.env plaintext (fresh content size) ht.error hne
    have hunsealable : Unsealable w₀.env plaintext v.state := ⟨_, hlength, .inl hne⟩
    refine (saltCliReportStateError_failed h₃ (by rw [hrc]; exact hne) ?_ (ht₃ _ ?_)).mono
      fun _ _ hf => .inr ⟨hf, fun _ => hunsealable⟩
    · simp only [withSealed, herror, Option.getD_some]
      exact hmessage
    · rw [herror]
      exact herrlen
  · have hstatus : (sealOf w₀.env plaintext v.state (fresh content size)).status = .ok :=
      hrc.symm.trans (not_not.1 hok)
    obtain ⟨herror, n, hwritten⟩ := (saltSealBase64_reported w₀.env.width w₀.env.sodium
      (some plaintext) (some (CString.ofBuffer v.state.parsedKeyB64))
      (some (fresh content size)) (some v.state.outputWritten) (some v.state.error)).1 hstatus
    change (sealOf w₀.env plaintext v.state (fresh content size)).error = some v.state.error at herror
    change (sealOf w₀.env plaintext v.state (fresh content size)).outputWritten = some n at hwritten
    have htidy := ht₃ (sealOf w₀.env plaintext v.state (fresh content size)) (by rw [herror]; rfl)
    refine (checkSealed_checked h₃ htidy).mono fun rc' w₄ hend => ?_
    simp only [withSealed, hwritten, herror, Option.getD_some] at htidy hend
    rcases hend with ⟨rfl, hpositive, h₄⟩ | ⟨hf, hfault⟩
    · refine .inl ⟨rfl, _, ?_, h₄⟩
      refine ⟨⟨size, n, ?_⟩, ⟨_, hlength, hstatus, ?_, ?_⟩, htidy, rfl, rfl, rfl⟩
      · rw [hkeyId]
      · rw [hwritten]
        exact fun h0 => hpositive (Option.some.inj h0)
      · rw [bytesAt_append]
        exact hout
    · exact .inr ⟨hf, fun h₀ => ⟨_, hlength, .inr (by rw [hwritten, hfault h₀])⟩⟩

/-- The preparation: the output block holds the sealed text, or there is one diagnostic. -/
theorem saltCliPrepareOutput_prepared (h : Tracks w₀ v w) (ht : Tidy v.state v.heap)
    (hslot : v.state.output = none) (hmessage : v.state.message = some id)
    (hid : id < v.heap.length) (hlen : v.state.messageLen ≤ saltMaxMessageLen)
    (hbytes : messageBytes (bytesAt v.heap id) v.state.messageLen = plaintext) :
    Ends saltCliPrepareOutput w fun rc w' =>
      (rc = .ok ∧ ∃ v', Prepared w₀.env v plaintext v' ∧ Tracks w₀ v' w') ∨
      (Failed v.err v.undefined v.positionals rc w' ∧
        (FaultFree w₀ → Unsealable w₀.env plaintext v.state)) := by
  have hplain : v.state.messageLen = plaintext.length := by rw [← hbytes, messageBytes_length]
  have hpos : 0 < saltRequiredBase64OutputLen w₀.env.width plaintext.length := by
    rw [(saltRequiredBase64OutputLen_eq w₀.env.width (hplain ▸ hlen)).1]
    omega
  refine (modifyState_tracks h _).bind fun _ w₁ h₁ => ?_
  refine Ends.bind (R := fun size w' =>
    size = saltRequiredBase64OutputLen w₀.env.width plaintext.length ∧
      Tracks w₀ { v with state := resolveEffectiveKeyId v.state } w') ⟨?_, h₁⟩ ?_
  · obtain ⟨keyId, hkeyId⟩ := resolveEffectiveKeyId_eq v.state
    have hstate := h₁.state
    simp only [hkeyId] at hstate
    simp only [read_value, hstate, h₁.env, hplain]
  rintro size w₂ ⟨hsize, h₂⟩
  rw [← hsize] at hpos
  refine .ite (fun hzero => absurd hzero hpos.ne') fun _ => ?_
  refine (saltCliAllocImpl_tracks h₂ _).bind fun output w₃ halloc => ?_
  rcases halloc with ⟨rfl, hnone, h₃⟩ | ⟨content, rfl, -, h₃⟩
  · exact (saltCliReportStreamStatus_failed h₃ true (by decide)
      ⟨ascii "failed to allocate output buffer", by decide, .inr (by decide)⟩
      (tidy_resolved ht)).mono fun _ _ hf => .inr ⟨hf, fun h₀ => absurd h₀ (h₂.no_fault hnone)⟩
  · exact sealIntoOutput_prepared h₃ ht hslot hmessage hid hbytes hpos hsize

end Prepare

end Salt.PreparationCorrect
