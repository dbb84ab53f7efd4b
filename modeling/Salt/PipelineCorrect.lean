import Salt.EmissionCorrect
import Salt.PreparationCorrect

set_option autoImplicit false

/-!
# From the key to the output

The stages behind the arguments. Either they come to the emission of a sealed
plaintext, or there is one diagnostic and the output stream is as before.
-/
namespace Salt.PipelineCorrect
open ByteStrings BlockHeap TracedState Sealing KeyParsing Trimming KeyParsingCorrect KeyInputCorrect
  StreamFacts Framing Tracking ReportingCorrect Ownership KeyLoading PlaintextLoading
  PreparationCorrect EmissionCorrect

structure Ready (v : View) : Prop where
  tidy : Tidy v.state v.heap
  stdinKey : v.state.stdinKey = none
  stdinPlaintext : v.state.stdinPlaintext = none
  argvPlaintextCopy : v.state.argvPlaintextCopy = none
  trimmedKeyInput : v.state.trimmedKeyInput = none
  output : v.state.output = none
  effectiveKeyId : v.state.effectiveKeyId = none
  keyOption : v.state.keyFromStdin = false → ∃ s, v.state.keyOption = some (.text s)
  sources : ¬ (v.state.keyFromStdin = true ∧ v.state.plaintextFromStdin = true)
  plaintext : v.state.plaintextFromStdin = false → 0 ∉ plaintextSource v

/-- The key id of the record: the option, or else the trimmed id of the key object. -/
def effectiveKeyIdOf (keyIdOption : Option CString) (keyId : Bytes) : Option Bytes :=
  match keyIdOption.filter fun s => s.bytes ≠ [] with
  | some s => some s.bytes
  | none => if keyId ≠ [] then some keyId else none

theorem effectiveKeyIdOf_ne_nil {keyIdOption : Option CString} {keyId id : Bytes}
    (h : effectiveKeyIdOf keyIdOption keyId = some id) : id ≠ [] := by
  unfold effectiveKeyIdOf at h
  split at h
  · next s hs =>
    obtain rfl := Option.some.inj h
    simpa using (Option.filter_eq_some_iff.1 hs).2
  · split_ifs at h with hne
    obtain rfl := Option.some.inj h
    exact hne

theorem resolveEffectiveKeyId_bytes {s : CliState} (keyId : Bytes) (hnone : s.effectiveKeyId = none)
    (hflag : s.parsedHasKeyId = decide (keyId ≠ [])) (hbuffer : cstr s.parsedKeyId = keyId) :
    (resolveEffectiveKeyId s).effectiveKeyId.map CString.bytes =
      effectiveKeyIdOf s.keyIdOption keyId := by
  subst hbuffer
  unfold resolveEffectiveKeyId effectiveKeyIdOf
  rcases hoption : s.keyIdOption with _ | option
  · by_cases hempty : cstr s.parsedKeyId = []
    · simp [hflag, hempty, hnone]
    · simp [hflag, hempty, CString.ofBuffer]
  · by_cases hbytes : option.bytes = []
    · by_cases hempty : cstr s.parsedKeyId = []
      · simp [Option.filter, hbytes, hflag, hempty, hnone]
      · simp [Option.filter, hbytes, hflag, hempty, CString.ofBuffer]
    · simp [Option.filter, hbytes]

/-- A stage that had `text` to give out: it is out whole, or a beginning of it and a diagnostic. -/
structure Issued (err : OutStream) (undefined : Bool) (positionals : List Bytes) (s : OutStream)
    (text : Bytes) (rc : SaltStatus) (w' : World) : Prop where
  status : rc = .ok ∨ rc = .errIo
  taken : ∃ n, accepted w'.out = accepted s ++ text.take n
  whole : rc = .ok → w'.out.delivered = accepted s ++ text ∧ w'.out.pending = []
  accepts : s.Accepts → s.errorFlag = false → rc = .ok
  done : rc = .ok → Tidy w'.state w'.heap ∧ w'.undefined = undefined ∧
    w'.positionals = positionals ∧ w'.err = err
  failed : rc ≠ .ok → Failed err undefined positionals rc w'

theorem Issued.tidy {err s : OutStream} {undefined : Bool} {positionals : List Bytes} {text : Bytes}
    {rc : SaltStatus} {w' : World} (h : Issued err undefined positionals s text rc w') :
    Tidy w'.state w'.heap ∧ w'.undefined = undefined := by
  by_cases hrc : rc = .ok
  · obtain ⟨ht, hundefined, -, -⟩ := h.done hrc
    exact ⟨ht, hundefined⟩
  · exact ⟨(h.failed hrc).tidy, (h.failed hrc).undefined⟩

section Emit
variable {w₀ w : World} {v : View}

/-- The report behind a stage that left its message in the error buffer. -/
theorem reportOrIo_failed (h : Tracks w₀ v w) {rc : SaltStatus} (hrc : rc ≠ .ok)
    (herror : cstr v.state.error ≠ []) (ht : Tidy v.state v.heap) :
    Ends (reportOrIo rc) w fun a w' => (a = rc ∨ a = .errIo) ∧
      Failed v.err v.undefined v.positionals a w' ∧ w'.out = w.out := by
  have hwritten : Ends writeStateError w fun a w' => (a = .ok ∨ a = .errIo) ∧
      ∃ error err, Sent w₀ v (stateErrorText v.state) (a = .ok) w' error err := by
    refine (getState_tracks h).bind fun s w₁ ⟨hs, h₁⟩ => ?_
    subst hs
    exact saltCliWriteStream_sent h₁ false _ _
  have hend : Ends (reportOrIo rc) w fun a w' => (a = rc ∨ a = .errIo) ∧
      Failed v.err v.undefined v.positionals a w' := by
    refine hwritten.bind fun a w₁ ⟨ha, error, err, hsent⟩ => ?_
    have hsent' (b : SaltStatus) (hb : a = .ok → b = rc) :
        Sent w₀ v (stateErrorText v.state) (b = rc) w₁ error err :=
      ⟨hsent.tracks, hsent.length, fun hacc => (hsent.accepted hacc).imp_left hb⟩
    have hdiag := isDiagnostic_of_error herror
    refine .ite (fun hio => .ret ⟨.inr rfl, ?_⟩) fun hok => .ret ⟨.inl rfl, ?_⟩
    · exact Sent.failed (hsent' .errIo fun hok => absurd hok hio) (.inr rfl) hrc hdiag ht
    · exact Sent.failed (hsent' rc fun _ => rfl) (.inl rfl) hrc hdiag ht
  exact ⟨hend.1, hend.2, (reportOrIo_internal rc).quiet.out_eq w⟩

theorem minded_reported {rc : SaltStatus} {w' : World} {error : Bytes}
    (h : Minded w₀ v rc w' error) (hrc : rc ≠ .ok) (ht : Tidy v.state v.heap) :
    Ends (reportOrIo rc) w' fun a w'' => (a = rc ∨ a = .errIo) ∧
      Failed v.err v.undefined v.positionals a w'' ∧ w''.out = w'.out :=
  reportOrIo_failed h.tracks hrc (h.message hrc ht.error) (ht.withError h.length)

theorem delivered_issued {s : OutStream} {text : Bytes} {rc : SaltStatus} {w' : World}
    (h : Delivered w₀ v s text rc w') (ht : Tidy v.state v.heap) :
    Ends (if rc ≠ .ok then reportOrIo rc else return .ok) w'
      (Issued v.err v.undefined v.positionals s text) := by
  obtain ⟨error, hm⟩ := h.minded
  refine .ite (fun hrc => ?_) fun hok => ?_
  · obtain rfl : rc = .errIo := h.status.resolve_left hrc
    refine (minded_reported hm hrc ht).mono fun a w'' ⟨ha, hf, hout⟩ => ?_
    refine ⟨.inr (ha.elim id id), by rw [hout]; exact h.taken, fun hok => absurd hok hf.ne_ok,
      fun hacc hflag => absurd (h.accepts hacc hflag) hrc, fun hok => absurd hok hf.ne_ok,
      fun _ => hf⟩
  · obtain rfl : rc = .ok := not_not.1 hok
    obtain rfl := hm.kept rfl
    refine .ret ⟨.inl rfl, h.taken, h.whole, fun _ _ => rfl, fun _ => ?_, fun hne => absurd rfl hne⟩
    rw [hm.tracks.state, hm.tracks.heap]
    exact ⟨ht, hm.tracks.undefined, hm.tracks.positionals, hm.tracks.err⟩

def Emits (v : View) (text : Bytes) : Prop :=
  EmitsText (CString.ofBuffer (v.state.output.elim [] (bytesAt v.heap))) v.state.effectiveKeyId
    v.state.outputMode text

theorem emitStage_issued (h : Tracks w₀ v w) (ht : Tidy v.state v.heap) :
    Ends emitStage w fun rc w' =>
      (∃ text, Emits v text ∧ Issued v.err v.undefined v.positionals w.out text rc w') ∨
      ((∀ text, ¬ Emits v text) ∧ Failed v.err v.undefined v.positionals rc w' ∧
        w'.out = w.out) := by
  refine Ends.bind_read h.state ?_
  refine Ends.bind_read (a := CString.ofBuffer (v.state.output.elim [] (bytesAt v.heap)))
    (by rw [← h.heap]; rfl) ?_
  refine (saltCliEmitOutput_spec h v.state.outputMode _ v.state.effectiveKeyId).bind
    fun rc w₁ hemit => ?_
  rcases hemit with ⟨text, htext, hd⟩ | ⟨hnone, hw⟩
  · exact (delivered_issued hd ht).mono fun rc w₂ hissued => .inl ⟨text, htext, hissued⟩
  · obtain ⟨error, hm⟩ := hw.minded
    have hrc : rc ≠ .ok := by
      rw [hw.status]
      decide
    rw [if_pos hrc]
    exact (minded_reported hm hrc ht).mono fun a w₂ ⟨_, hf, hout⟩ =>
      .inr ⟨hnone, hf, by rw [hout, hw.out]⟩

end Emit

/-- A key text and a plaintext that the loaders take. -/
structure Loadable (v : View) (key : Bytes) (keyId : Option Bytes) : Prop where
  keyLength : (keySource v).length ≤ saltMaxKeyInputLen
  key : CliKeyText v.state.keyFormat (trim (cstr (keySource v))) key keyId
  nonempty : 1 ≤ (plaintextSource v).length
  plaintextLength : (plaintextSource v).length ≤ saltGithubSecretMaxValueLen

/-- Why a key and a plaintext that were loaded do not make a record. -/
def Unrecordable (env : Env) (v : View) (key : Bytes) (keyId : Option Bytes) : Prop :=
  (∃ s : CliState, cstr s.parsedKeyB64 = trim key ∧ Unsealable env (plaintextSource v) s) ∨
    v.state.outputMode = .json ∧
      ∀ id, effectiveKeyIdOf v.state.keyIdOption (trim (keyId.getD [])) = some id →
        ¬ Utf8Text.WellFormed id

def Recorded (env : Env) (v : View) (key : Bytes) (keyId : Option Bytes) (text : Bytes) : Prop :=
  ∃ s buffer value effective, cstr s.parsedKeyB64 = trim key ∧
    Produces env (plaintextSource v) s buffer value ∧
    effective.map CString.bytes = effectiveKeyIdOf v.state.keyIdOption (trim (keyId.getD [])) ∧
    EmitsText (CString.ofBuffer value) effective v.state.outputMode text

def positionalsLoaded (w : World) : List Bytes :=
  let r := saltCliInputLoadKeyInput w
  if r.value = .ok then positionalsAfter r.final (view r.final) else w.positionals

theorem cliKeyText_unique {keyFormat : KeyFormat} {text key key' : Bytes}
    {keyId keyId' : Option Bytes} (htext : 0 ∉ text) (h : CliKeyText keyFormat text key keyId)
    (h' : CliKeyText keyFormat text key' keyId') :
    trim key = trim key' ∧ trim (keyId.getD []) = trim (keyId'.getD []) := by
  have hsize : List.replicate (saltMaxKeyInputLen + 1) (0 : UInt8) ≠ [] := by simp
  obtain ⟨rc, out, -, -, -, -, -, hcomplete⟩ := saltCliParseKeyInput_eq htext [] keyFormat hsize
    (some (List.replicate (saltMaxKeyIdLen + 1) 0)) none false
  simp only [Option.map_some, List.length_replicate] at hcomplete
  obtain ⟨-, hparsed⟩ := hcomplete key keyId h
  obtain ⟨-, hparsed'⟩ := hcomplete key' keyId' h'
  obtain ⟨tail, hout, -⟩ := hparsed.keyB64
  obtain ⟨tail', hout', -⟩ := hparsed'.keyB64
  constructor
  · have hcstr := congrArg cstr (Option.some.inj (hout.symm.trans hout'))
    rwa [cstr_append_zero (trim_noNul (h.noNul htext)),
      cstr_append_zero (trim_noNul (h'.noNul htext))] at hcstr
  · exact Option.some.inj (hparsed.keyId_cstr.symm.trans hparsed'.keyId_cstr)

theorem keySource_noNul (v : View) : 0 ∉ trim (cstr (keySource v)) := trim_noNul (cstr_noNul _)

section Stages
variable {w₀ w : World} {v v₁ v₂ v₃ : View} {key : Bytes} {keyId : Option Bytes}

theorem plaintextSource_loaded (hr : Ready v) (h : KeyLoaded v key keyId v₁) :
    plaintextSource v₁ = plaintextSource v := by
  obtain ⟨_, _, _, _, _, _, hstate, -, -⟩ := h.state
  have hfrom : v₁.state.plaintextFromStdin = v.state.plaintextFromStdin := by rw [hstate]; rfl
  have harg : v₁.state.plaintextArg = v.state.plaintextArg := by rw [hstate]; rfl
  unfold plaintextSource
  rw [hfrom, harg, h.positionals]
  refine ite_congr rfl (fun hstdin => ?_) fun _ => rfl
  rw [h.input]
  exact Bool.not_eq_true _ ▸ fun hkey => hr.sources ⟨hkey, hstdin⟩

theorem emits_recorded (hkey : KeyLoaded v key keyId v₁) {positionals : List Bytes}
    (hstored : MessageStored v₁ (plaintextSource v) positionals v₂)
    (hprepared : Prepared w₀.env v₂ (plaintextSource v) v₃) (hnone : v.state.effectiveKeyId = none) :
    (∀ text, Emits v₃ text → Recorded w₀.env v key keyId text) ∧
      ((∀ text, ¬ Emits v₃ text) → Unrecordable w₀.env v key keyId) := by
  obtain ⟨_, _, _, _, keyB64, idBuffer, hstate₁, hb64, hid⟩ := hkey.state
  obtain ⟨_, _, _, _, hstate₂, -, -⟩ := hstored.state
  obtain ⟨cap, written, hstate₃⟩ := hprepared.state
  obtain ⟨buffer, hproduces⟩ := hprepared.output
  have hkey₂ : cstr v₂.state.parsedKeyB64 = trim key := by
    rw [hstate₂, hstate₁]
    exact hb64
  have hbytes : v₃.state.effectiveKeyId.map CString.bytes =
      effectiveKeyIdOf v.state.keyIdOption (trim (keyId.getD [])) := by
    rw [hstate₃]
    change (resolveEffectiveKeyId v₂.state).effectiveKeyId.map CString.bytes = _
    rw [resolveEffectiveKeyId_bytes (trim (keyId.getD []))]
    · rw [hstate₂, hstate₁]
      rfl
    · rw [hstate₂, hstate₁]
      exact hnone
    · rw [hstate₂, hstate₁]
      rfl
    · rw [hstate₂, hstate₁]
      exact hid
  have hmode : v₃.state.outputMode = v.state.outputMode := by
    obtain ⟨effective, hresolve⟩ := resolveEffectiveKeyId_eq v₂.state
    rw [hstate₃, hresolve, hstate₂, hstate₁]
    rfl
  have hvalue : v₃.state.output.elim [] (bytesAt v₃.heap) = bytesAt v₃.heap v₂.heap.length := by
    rw [hstate₃]
    rfl
  unfold Emits
  rw [hmode, hvalue]
  refine ⟨fun text htext => ⟨_, _, _, _, hkey₂, hproduces, hbytes, htext⟩, fun hno => .inr ?_⟩
  cases hjson : v.state.outputMode with
  | text =>
    rw [hjson] at hno
    exact absurd .text (hno _)
  | json =>
    rw [hjson] at hno
    refine ⟨rfl, fun id hid' hwell => ?_⟩
    rw [hid'] at hbytes
    obtain ⟨effective, heffective, rfl⟩ := Option.map_eq_some_iff.1 hbytes
    exact hno _ (.json ⟨heffective, effectiveKeyIdOf_ne_nil hid', hwell⟩)

theorem preparedOutput_issued (h : Tracks w₀ v₂ w) (hr : Ready v) (hkey : KeyLoaded v key keyId v₁)
    {positionals : List Bytes} (hstored : MessageStored v₁ (plaintextSource v) positionals v₂)
    (hlen : (plaintextSource v).length ≤ saltGithubSecretMaxValueLen) :
    Ends (do
      let rc ← saltCliPrepareOutput
      if rc ≠ .ok then return rc else emitStage) w fun rc w' =>
      (∃ text, Recorded w₀.env v key keyId text ∧
        Issued v.err v.undefined positionals w.out text rc w') ∨
      (Failed v.err v.undefined positionals rc w' ∧ w'.out = w.out ∧
        (FaultFree w₀ → Unrecordable w₀.env v key keyId)) := by
  obtain ⟨_, _, _, _, keyB64, idBuffer, hstate₁, hb64, -⟩ := hkey.state
  obtain ⟨_, _, _, id, hstate₂, hbytes, hid⟩ := hstored.state
  have hslot : v₂.state.output = none := by
    rw [hstate₂, hstate₁]
    exact hr.output
  have hmessage : v₂.state.message = some id := by rw [hstate₂]
  have hmessageLen : v₂.state.messageLen = (plaintextSource v).length := by rw [hstate₂]
  have hb64₂ : cstr v₂.state.parsedKeyB64 = trim key := by
    rw [hstate₂, hstate₁]
    exact hb64
  have herr : v₂.err = v.err := hstored.err.trans hkey.err
  have hundefined : v₂.undefined = v.undefined := hstored.undefined.trans hkey.undefined
  have hlimit : v₂.state.messageLen ≤ saltMaxMessageLen := by
    rw [hmessageLen]
    exact le_trans hlen (by decide)
  have hout : Ends saltCliPrepareOutput w fun _ w' => w'.out = w.out :=
    saltCliPrepareOutput_internal.quiet.out_eq w
  rw [← hmessageLen] at hbytes
  refine (hout.and (saltCliPrepareOutput_prepared h hstored.tidy hslot hmessage hid hlimit
    hbytes)).bind ?_
  rintro rc w₁ ⟨hout₁, ⟨rfl, v₃, hprepared, h₃⟩ | ⟨hf, hwhy⟩⟩
  · obtain ⟨hrecorded, hrefused⟩ := emits_recorded hkey hstored hprepared hr.effectiveKeyId
    refine (emitStage_issued h₃ hprepared.tidy).mono fun rc w₂ hend => ?_
    rw [hprepared.err, hprepared.undefined, hprepared.positionals, herr, hundefined,
      hstored.positionals, hout₁] at hend
    rcases hend with ⟨text, htext, hissued⟩ | ⟨hnone, hf, hout₂⟩
    · exact .inl ⟨text, hrecorded text htext, hissued⟩
    · exact .inr ⟨hf, hout₂, fun _ => hrefused hnone⟩
  · rw [if_pos hf.ne_ok]
    rw [herr, hundefined, hstored.positionals] at hf
    exact .ret (.inr ⟨hf, hout₁, fun h₀ => .inl ⟨_, hb64₂, hwhy h₀⟩⟩)

theorem encryptStages_issued (h : Tracks w₀ v w) (hr : Ready v) :
    Ends encryptStages w fun rc w' =>
      (∃ key keyId text, Loadable v key keyId ∧ Recorded w₀.env v key keyId text ∧
        Issued v.err v.undefined (positionalsLoaded w) w.out text rc w') ∨
      (Failed v.err v.undefined (positionalsLoaded w) rc w' ∧ w'.out = w.out ∧
        (FaultFree w₀ → ∀ key keyId, Loadable v key keyId → Unrecordable w₀.env v key keyId)) := by
  have hout := saltCliInputLoadKeyInput_internal.quiet.out_eq w
  have hrun : Ends saltCliInputLoadKeyInput w fun rc w' =>
    rc = (saltCliInputLoadKeyInput w).value ∧ w' = (saltCliInputLoadKeyInput w).final := ⟨rfl, rfl⟩
  refine (hrun.and (saltCliInputLoadKeyInput_loaded h hr.tidy hr.stdinKey hr.trimmedKeyInput
    hr.keyOption)).bind ?_
  rintro rc w₁ ⟨⟨hrc, hw₁⟩, ⟨rfl, hlen, key, keyId, v₁, hkeyText, hkey, h₁⟩ | ⟨hf, hwhy⟩⟩
  · have hpositionals : positionalsLoaded w = positionalsAfter w₁ v₁ := by
      rw [positionalsLoaded, ← hrc, ← hw₁, if_pos rfl, h₁.view]
    have hplain := plaintextSource_loaded hr hkey
    rw [← hw₁] at hout
    obtain ⟨_, _, _, _, _, _, hstate, -, -⟩ := hkey.state
    have hout₂ : Ends saltCliInputLoadPlaintext w₁ fun _ w' => w'.out = w₁.out :=
      saltCliInputLoadPlaintext_internal.quiet.out_eq w₁
    have hplaintext := saltCliInputLoadPlaintext_stored h₁ hkey.tidy
      (by rw [hstate]; exact hr.stdinPlaintext) (by rw [hstate]; exact hr.argvPlaintextCopy)
      (by rw [hplain, hstate]; exact hr.plaintext)
    rw [hplain, ← hpositionals, hkey.err, hkey.undefined] at hplaintext
    refine (hout₂.and hplaintext).bind ?_
    rintro rc w₂ ⟨hout₂, ⟨rfl, hpos, hle, v₂, hstored, h₂⟩ | ⟨hf, hwhy⟩⟩
    · refine (preparedOutput_issued h₂ hr hkey hstored hle).mono fun rc w₃ hend => ?_
      rw [hout₂, hout] at hend
      have hload : Loadable v key keyId := ⟨hlen, hkeyText, hpos, hle⟩
      rcases hend with ⟨text, htext, hissued⟩ | ⟨hf, hout₃, hwhy⟩
      · exact .inl ⟨key, keyId, text, hload, htext, hissued⟩
      · refine .inr ⟨hf, hout₃, fun h₀ key' keyId' hload' => ?_⟩
        obtain ⟨hsame, hsameId⟩ := cliKeyText_unique (keySource_noNul v) hload.key hload'.key
        have := hwhy h₀
        unfold Unrecordable at this ⊢
        rwa [hsame, hsameId] at this
    · rw [if_pos hf.ne_ok]
      exact .ret (.inr ⟨hf, hout₂.trans hout, fun h₀ key' keyId' hload' =>
        absurd ⟨hload'.nonempty, hload'.plaintextLength⟩ (hwhy h₀)⟩)
  · have hpositionals : positionalsLoaded w = v.positionals := by
      rw [positionalsLoaded, ← hrc, if_neg hf.ne_ok, h.positionals]
    rw [if_pos hf.ne_ok, hpositionals]
    exact .ret (.inr ⟨hf, hw₁ ▸ hout, fun h₀ key' keyId' hload' =>
      absurd ⟨hload'.keyLength, key', keyId', hload'.key⟩ (hwhy h₀)⟩)

end Stages

end Salt.PipelineCorrect
