import Salt.RunCorrect

set_option autoImplicit false

/-!
# A run without faults, from the arguments to the record

What is asked of the arguments and the input, and what the record opens to.
-/
namespace Salt.EndToEnd
open ByteStrings Base64Text TracedState Sealing SealingCorrect Trimming JsonEmission StreamFacts
  Framing Tracking ArgumentsCorrect KeyLoading PlaintextLoading PreparationCorrect EmissionCorrect
  PipelineCorrect RunCorrect

def keyTextOf (inv : Invocation) (stdin : Bytes) : Bytes :=
  if (optionState inv).keyFromStdin then stdin
  else match (optionState inv).keyOption with
    | some (.text s) => s.bytes
    | _ => []

def plaintextOf (inv : Invocation) (stdin : Bytes) : Bytes :=
  if (optionState inv).plaintextFromStdin then stdin
  else inv.positionals.head?.elim [] CString.bytes

/-- Everything a run asks of its arguments and its input. -/
structure Acceptable (inv : Invocation) (stdin key : Bytes) (keyId : Option Bytes)
    (publicKey : Bytes) : Prop where
  options : ∀ e ∈ inv.events, Valid e = true
  admissible : Admissible inv (withOptions inv.events initState)
  keyLength : (keyTextOf inv stdin).length ≤ saltMaxKeyInputLen
  keyText : CliKeyText (optionState inv).keyFormat (trim (keyTextOf inv stdin)) key keyId
  publicKey : IsKeyText (trim key) publicKey
  nonempty : 1 ≤ (plaintextOf inv stdin).length
  plaintextLength : (plaintextOf inv stdin).length ≤ saltGithubSecretMaxValueLen
  record : (optionState inv).outputMode = .json → ∃ id,
    effectiveKeyIdOf (optionState inv).keyIdOption (trim (keyId.getD [])) = some id ∧
      Utf8Text.WellFormed id

/-- The record of an encrypted value, in the output mode of the run. -/
inductive IsRecord (inv : Invocation) (keyId : Option Bytes) (value : Bytes) : Bytes → Prop where
  | text (hmode : (optionState inv).outputMode = .text) : IsRecord inv keyId value (value ++ [10])
  | json (hmode : (optionState inv).outputMode = .json) (id : Bytes)
      (hid : effectiveKeyIdOf (optionState inv).keyIdOption (trim (keyId.getD [])) = some id) :
      IsRecord inv keyId value (jsonRecord value id ++ [10])

/-- An acceptable run on whose plaintext and key `crypto_box_seal` succeeds. -/
def Sealable (sodium : Sodium) (inv : Invocation) (stdin key : Bytes) (keyId : Option Bytes)
    (publicKey : Bytes) : Prop :=
  Acceptable inv stdin key keyId publicKey ∧ Seals sodium (plaintextOf inv stdin) publicKey

/-- A libsodium that behaves as documented, and comes up. -/
structure Works (sodium : Sodium) (keyPair : Bytes → Bytes → Prop)
    (cryptoBoxSealOpen : Bytes → Bytes → Bytes → Option Bytes) : Prop where
  follows : FollowsLibsodium sodium
  init : 0 ≤ sodium.init
  alloc : sodium.alloc ≠ none
  box : BoxSealInverts sodium keyPair cryptoBoxSealOpen

section Seal
variable {env : Env} {keyPair : Bytes → Bytes → Prop}
  {cryptoBoxSealOpen : Bytes → Bytes → Bytes → Option Bytes} {plaintext buffer : Bytes} {s : CliState}

theorem sealOf_eq (env : Env) (plaintext : Bytes) (s : CliState) (buffer : Bytes) :
    sealOf env plaintext s buffer = saltSealBase64Keylen env.width env.sodium (some plaintext)
      (some (cstr s.parsedKeyB64)) (some buffer) (some s.outputWritten) (some s.error) :=
  measured_key _ _ _ _ (some (CString.ofBuffer s.parsedKeyB64)) _ _

theorem sealOf_ok_iff (hworks : Works env.sodium keyPair cryptoBoxSealOpen)
    (hsize : buffer.length = saltRequiredBase64OutputLen env.width plaintext.length)
    (hpos : 1 ≤ plaintext.length) (hle : plaintext.length ≤ saltGithubSecretMaxValueLen) :
    (sealOf env plaintext s buffer).status = .ok ↔ ∃ publicKey,
      IsKeyText (cstr s.parsedKeyB64) publicKey ∧ Seals env.sodium plaintext publicKey := by
  rw [sealOf_eq, (saltSealBase64Keylen_ok_iff env.width plaintext _ buffer _ _ hworks.follows
    hworks.init hworks.alloc hworks.box).1]
  have hlimit : plaintext.length ≤ saltMaxMessageLen := le_trans hle (by decide)
  refine ⟨fun ⟨hargs, hseals⟩ => ?_, fun ⟨publicKey, hkey, hseals⟩ => ?_⟩
  · obtain ⟨publicKey, hkey⟩ := hargs.2.2.1
    exact ⟨publicKey, hkey, hseals publicKey hkey⟩
  · exact ⟨⟨hpos, hlimit, ⟨publicKey, hkey⟩, hsize.ge⟩, (sealsText_iff hkey).2 hseals⟩

theorem sealOf_output (hworks : Works env.sodium keyPair cryptoBoxSealOpen)
    (hsize : buffer.length = saltRequiredBase64OutputLen env.width plaintext.length)
    (hpos : 1 ≤ plaintext.length) (hle : plaintext.length ≤ saltGithubSecretMaxValueLen)
    {publicKey : Bytes} (hkey : IsKeyText (cstr s.parsedKeyB64) publicKey)
    (hok : (sealOf env plaintext s buffer).status = .ok) :
    Seals env.sodium plaintext publicKey ∧
    ∃ text, (sealOf env plaintext s buffer).output = some text ∧
      cstr text = encode true (env.sodium.cryptoBoxSeal plaintext publicKey).2 ∧
      (sealOf env plaintext s buffer).outputWritten = some (cstr text).length := by
  have hlimit : plaintext.length ≤ saltMaxMessageLen := le_trans hle (by decide)
  rw [sealOf_eq] at hok ⊢
  obtain ⟨hseals, more, hout, -, hwritten⟩ := sealed_output hworks.follows hworks.box hkey hok
    ⟨hpos, hlimit, ⟨publicKey, hkey⟩, hsize.ge⟩
  refine ⟨hseals, _, hout, cstr_append_zero (text_noNul _ _) more, ?_⟩
  rw [hwritten, cstr_append_zero (text_noNul _ _)]
  rfl

end Seal

section Inputs
variable {inv : Invocation} {w : World} {key : Bytes} {keyId : Option Bytes} {publicKey : Bytes}

def stagesView (inv : Invocation) (w : World) : View := { startView w with state := optionState inv }

theorem keySource_stagesView (inv : Invocation) (w : World) :
    keySource (stagesView inv w) = keyTextOf inv w.input.rest := rfl

theorem plaintextSource_stagesView (hstart : Starts inv w) :
    plaintextSource (stagesView inv w) = plaintextOf inv w.input.rest := by
  have harg : (optionState inv).plaintextArg.getD 0 = 0 := by
    change (if inv.positionals = [] then none else some 0).getD 0 = 0
    split_ifs <;> rfl
  change (if (optionState inv).plaintextFromStdin then w.input.rest
    else w.positionals.getD ((optionState inv).plaintextArg.getD 0) []) = _
  rw [harg, hstart.positionals, plaintextOf]
  cases inv.positionals <;> rfl

theorem keyTextOf_noNul {stdin : Bytes} (hnul : (optionState inv).keyFromStdin = true → 0 ∉ stdin) :
    0 ∉ keyTextOf inv stdin := by
  unfold keyTextOf
  split_ifs with hstdin
  · exact hnul hstdin
  · split
    · next s _ => exact s.noNul
    · exact List.not_mem_nil

theorem loadable_iff (hstart : Starts inv w)
    (hnul : (optionState inv).keyFromStdin = true → 0 ∉ w.input.rest) :
    Loadable (stagesView inv w) key keyId ↔
      (keyTextOf inv w.input.rest).length ≤ saltMaxKeyInputLen ∧
      CliKeyText (optionState inv).keyFormat (trim (keyTextOf inv w.input.rest)) key keyId ∧
      1 ≤ (plaintextOf inv w.input.rest).length ∧
      (plaintextOf inv w.input.rest).length ≤ saltGithubSecretMaxValueLen := by
  rw [← plaintextSource_stagesView hstart, ← keySource_stagesView inv w]
  have hcstr : cstr (keySource (stagesView inv w)) = keySource (stagesView inv w) :=
    cstr_of_noNul (keyTextOf_noNul hnul)
  constructor
  · rintro ⟨hlen, hkey, hpos, hle⟩
    rw [hcstr] at hkey
    exact ⟨hlen, hkey, hpos, hle⟩
  · rintro ⟨hlen, hkey, hpos, hle⟩
    refine ⟨hlen, ?_, hpos, hle⟩
    rw [hcstr]
    exact hkey

theorem Acceptable.loadable (h : Acceptable inv w.input.rest key keyId publicKey)
    (hstart : Starts inv w) (hnul : (optionState inv).keyFromStdin = true → 0 ∉ w.input.rest) :
    Loadable (stagesView inv w) key keyId :=
  (loadable_iff hstart hnul).2 ⟨h.keyLength, h.keyText, h.nonempty, h.plaintextLength⟩

end Inputs

section Stages
variable {inv : Invocation} {w : World} {key : Bytes} {keyId : Option Bytes} {publicKey text : Bytes}
  {keyPair : Bytes → Bytes → Prop} {cryptoBoxSealOpen : Bytes → Bytes → Bytes → Option Bytes}

theorem recorded_sealable (hstart : Starts inv w)
    (hnul : (optionState inv).keyFromStdin = true → 0 ∉ w.input.rest)
    (hworks : Works w.env.sodium keyPair cryptoBoxSealOpen)
    (hvalid : ∀ e ∈ inv.events, Valid e = true)
    (hadm : Admissible inv (withOptions inv.events initState))
    (hload : Loadable (stagesView inv w) key keyId)
    (hrecorded : Recorded w.env (stagesView inv w) key keyId text) :
    ∃ publicKey, Sealable w.env.sodium inv w.input.rest key keyId publicKey := by
  obtain ⟨hlen, hkey, hpos, hle⟩ := (loadable_iff hstart hnul).1 hload
  obtain ⟨s, buffer, value, effective, hs, hproduces, heffective, htext⟩ := hrecorded
  have hsize := hproduces.size
  have hstatus := hproduces.status
  rw [plaintextSource_stagesView hstart] at hsize hstatus
  obtain ⟨publicKey, hpublic, hseals⟩ := (sealOf_ok_iff hworks hsize hpos hle).1 hstatus
  rw [hs] at hpublic
  refine ⟨publicKey, ⟨hvalid, hadm, hlen, hkey, hpublic, hpos, hle, fun hjson => ?_⟩, hseals⟩
  change EmitsText _ effective (optionState inv).outputMode text at htext
  rw [hjson] at htext
  obtain ⟨id, ⟨rfl, -, hwell⟩, -⟩ := emitsText_json htext
  exact ⟨id.bytes, heffective.symm, hwell⟩

theorem Sealable.recordable (hseal : Sealable w.env.sodium inv w.input.rest key keyId publicKey)
    (hstart : Starts inv w) (hworks : Works w.env.sodium keyPair cryptoBoxSealOpen) :
    ¬ Unrecordable w.env (stagesView inv w) key keyId := by
  obtain ⟨h, hseals⟩ := hseal
  rintro (⟨s, hs, buffer, hsize, hfails⟩ | ⟨hjson, hno⟩)
  · rw [plaintextSource_stagesView hstart] at hsize hfails
    have hkey : IsKeyText (cstr s.parsedKeyB64) publicKey := hs ▸ h.publicKey
    have hok := (sealOf_ok_iff hworks hsize h.nonempty h.plaintextLength).2 ⟨publicKey, hkey, hseals⟩
    obtain ⟨-, text, -, htext, hwritten⟩ :=
      sealOf_output hworks hsize h.nonempty h.plaintextLength hkey hok
    rcases hfails with hstatus | hzero
    · exact hstatus hok
    · rw [hwritten, htext, Option.some.injEq, encode_length_padded,
        hworks.box.length _ _ hseals] at hzero
      have := h.nonempty
      omega
  · obtain ⟨id, hid, hwell⟩ := h.record hjson
    exact hno id hid hwell

theorem recorded_opens (h : Acceptable inv w.input.rest key keyId publicKey) (hstart : Starts inv w)
    (hworks : Works w.env.sodium keyPair cryptoBoxSealOpen)
    (hrecorded : Recorded w.env (stagesView inv w) key keyId text) :
    ∃ ciphertext, IsRecord inv keyId (encode true ciphertext) text ∧
      ∀ secretKey, keyPair publicKey secretKey →
        cryptoBoxSealOpen ciphertext publicKey secretKey = some (plaintextOf inv w.input.rest) := by
  obtain ⟨s, buffer, value, effective, hs, hproduces, heffective, htext⟩ := hrecorded
  have hsize := hproduces.size
  have hstatus := hproduces.status
  have houtput := hproduces.output
  rw [plaintextSource_stagesView hstart] at hsize hstatus houtput
  have hkey : IsKeyText (cstr s.parsedKeyB64) publicKey := hs ▸ h.publicKey
  obtain ⟨hseals, text', hout, hcstr, -⟩ :=
    sealOf_output hworks hsize h.nonempty h.plaintextLength hkey hstatus
  obtain rfl : value = text' := Option.some.inj (houtput.symm.trans hout)
  refine ⟨_, ?_, fun secretKey hpair => hworks.box.opens _ _ _ hseals hpair⟩
  rw [← hcstr]
  change EmitsText (CString.ofBuffer value) effective (optionState inv).outputMode text at htext
  cases hmode : (optionState inv).outputMode with
  | text =>
    rw [hmode] at htext
    cases htext
    exact .text hmode
  | json =>
    rw [hmode] at htext
    obtain ⟨id, ⟨rfl, -, -⟩, rfl⟩ := emitsText_json htext
    exact .json hmode id.bytes heffective.symm

theorem recorded_congr {env : Env} {v : View} {key' : Bytes} {keyId' : Option Bytes}
    (h : Recorded env v key keyId text) (hkey : trim key = trim key')
    (hid : trim (keyId.getD []) = trim (keyId'.getD [])) : Recorded env v key' keyId' text := by
  unfold Recorded at h ⊢
  rwa [hkey, hid] at h

end Stages

section Run
variable {inv : Invocation} {w : World} {keyPair : Bytes → Bytes → Prop}
  {cryptoBoxSealOpen : Bytes → Bytes → Bytes → Option Bytes}

/-- What a run without faults comes to: nothing, or a record that opens to the plaintext. -/
structure Delivers (inv : Invocation) (w : World) (keyPair : Bytes → Bytes → Prop)
    (cryptoBoxSealOpen : Bytes → Bytes → Bytes → Option Bytes) (rc : SaltStatus) (out : OutStream) :
    Prop where
  ok_iff : rc = .ok ↔ ∃ key keyId publicKey, Sealable w.env.sodium inv w.input.rest key keyId publicKey
  withheld : rc ≠ .ok → out = w.out
  record : ∀ key keyId publicKey, Sealable w.env.sodium inv w.input.rest key keyId publicKey →
    ∃ ciphertext record, out.delivered = accepted w.out ++ record ∧ out.pending = [] ∧
      IsRecord inv keyId (encode true ciphertext) record ∧
      ∀ secretKey, keyPair publicKey secretKey →
        cryptoBoxSealOpen ciphertext publicKey secretKey = some (plaintextOf inv w.input.rest)

theorem delivers_nothing {rc : SaltStatus} {out : OutStream} (hrc : rc ≠ .ok) (hout : out = w.out)
    (hno : ∀ key keyId publicKey, ¬ Sealable w.env.sodium inv w.input.rest key keyId publicKey) :
    Delivers inv w keyPair cryptoBoxSealOpen rc out where
  ok_iff := ⟨fun hok => absurd hok hrc, fun ⟨key, keyId, publicKey, h⟩ =>
    absurd h (hno key keyId publicKey)⟩
  withheld _ := hout
  record key keyId publicKey h := absurd h (hno key keyId publicKey)

theorem runEnds_delivers {w₀ w₁ : World} {positionals : List Bytes} {rc : SaltStatus}
    (h : RunEnds inv w₀ (startView w) positionals w.out rc w₁) (hstart : Starts inv w)
    (henv : w₀.env = w.env) (hfree : FaultFree w₀) (hasks : inv.events.any asksText = false)
    (haccepts : w.out.Accepts) (hclear : w.out.errorFlag = false)
    (hnul : (optionState inv).keyFromStdin = true → 0 ∉ w.input.rest)
    (hworks : Works w.env.sodium keyPair cryptoBoxSealOpen) :
    Delivers inv w keyPair cryptoBoxSealOpen rc w₁.out := by
  cases h with
  | misused event hmem hbad hm hout =>
    have hrc : rc ≠ .ok := by rcases hm.status with rfl | rfl <;> decide
    refine delivers_nothing hrc hout fun key keyId publicKey h => ?_
    exact absurd (h.1.options event hmem) (by rw [hbad]; decide)
  | informed _ hinformed _ => exact absurd (hasks.symm.trans hinformed) (by decide)
  | declined _ _ hno hd hout =>
    exact delivers_nothing hd.ne_ok hout fun key keyId publicKey h => hno h.1.admissible
  | recorded hvalid _ hadm key keyId text hload hrecorded hissued =>
    rw [henv] at hrecorded
    have hok := hissued.accepts haccepts hclear
    obtain ⟨publicKey, hacc⟩ :=
      recorded_sealable hstart hnul hworks hvalid hadm hload hrecorded
    refine ⟨⟨fun _ => ⟨key, keyId, publicKey, hacc⟩, fun _ => hok⟩, fun hne => absurd hok hne,
      fun key' keyId' publicKey' hacc' => ?_⟩
    obtain ⟨hkey, hid⟩ := cliKeyText_unique (trim_noNul (keyTextOf_noNul hnul)) hacc.1.keyText
      hacc'.1.keyText
    obtain ⟨ciphertext, hrecord, hopens⟩ :=
      recorded_opens hacc'.1 hstart hworks (recorded_congr hrecorded hkey hid)
    exact ⟨ciphertext, text, (hissued.whole hok).1, (hissued.whole hok).2, hrecord, hopens⟩
  | refused _ _ _ hf hout hwhy =>
    refine delivers_nothing hf.ne_ok hout fun key keyId publicKey h => ?_
    have hunrecordable := hwhy hfree key keyId (h.1.loadable hstart hnul)
    rw [henv] at hunrecordable
    exact h.recordable hstart hworks hunrecordable

/-- A run without faults succeeds just when its inputs are acceptable, and then the one record it
delivers opens to the plaintext; else it delivers nothing. -/
theorem saltCliRunWithStreams_endToEnd (inv : Invocation) (w : World) (hstart : Starts inv w)
    (hshape : saltCliHasValidArgvShape inv = true) (hasks : inv.events.any asksText = false)
    (hfree : FaultFree { w with interrupted := false }) (haccepts : w.out.Accepts)
    (hclear : w.out.errorFlag = false)
    (hnul : (optionState inv).keyFromStdin = true → 0 ∉ w.input.rest)
    (keyPair : Bytes → Bytes → Prop) (cryptoBoxSealOpen : Bytes → Bytes → Bytes → Option Bytes)
    (hworks : Works w.env.sodium keyPair cryptoBoxSealOpen)
    (hseals : ∀ key keyId publicKey, Acceptable inv w.input.rest key keyId publicKey →
      Seals w.env.sodium (plaintextOf inv w.input.rest) publicKey) :
    let r := saltCliRunWithStreams inv false w
    (r.value = .ok ↔ ∃ key keyId publicKey, Acceptable inv w.input.rest key keyId publicKey) ∧
    (r.value ≠ .ok → r.final.out = w.out) ∧
    ∀ key keyId publicKey, Acceptable inv w.input.rest key keyId publicKey →
      ∃ ciphertext record, r.final.out.delivered = accepted w.out ++ record ∧
        r.final.out.pending = [] ∧ IsRecord inv keyId (encode true ciphertext) record ∧
        ∀ secretKey, keyPair publicKey secretKey →
          cryptoBoxSealOpen ciphertext publicKey secretKey = some (plaintextOf inv w.input.rest) := by
  intro r
  rcases saltCliRunWithStreamsInternal_ends false false hstart with
    ⟨hbad | hbad, -⟩ | ⟨-, -, w₁, hend, hclean⟩
  · exact absurd (hshape.symm.trans hbad) (by decide)
  · exact absurd hbad (by decide)
  have hout : r.final.out = w₁.out := hclean.out
  rw [hout]
  cases hend with
  | uninstalled hrc _ _ => exact absurd rfl hrc
  | ran hinstalled hrun =>
    have hreset := resetWorld_starts hstart hinstalled
    have h := runEnds_delivers hrun hstart hreset.env (hreset.faultFree hfree) hasks haccepts hclear
      hnul hworks
    have hsealable {key : Bytes} {keyId : Option Bytes} {publicKey : Bytes}
        (hacc : Acceptable inv w.input.rest key keyId publicKey) :
        Sealable w.env.sodium inv w.input.rest key keyId publicKey := ⟨hacc, hseals _ _ _ hacc⟩
    refine ⟨h.ok_iff.trans ⟨fun ⟨_, _, _, hseal⟩ => ⟨_, _, _, hseal.1⟩, fun ⟨_, _, _, hacc⟩ =>
      ⟨_, _, _, hsealable hacc⟩⟩, h.withheld, fun _ _ _ hacc => h.record _ _ _ (hsealable hacc)⟩

end Run

theorem sample_acceptable : Acceptable sampleInvocation [] sampleKeyText.bytes none
    sampleKey where
  options := by decide
  admissible :=
    { key := ⟨sampleKeyText, rfl, by decide⟩
      keyId := fun keyId h => by cases h
      positionals := by decide
      sources := by decide }
  keyLength := by decide
  keyText := .raw (by decide) (by decide) (by decide)
  publicKey := sampleKeyText_isKeyText
  nonempty := by decide
  plaintextLength := by decide
  record h := by cases h

theorem saltCliRunWithStreams_endToEnd_sample :
    let r := saltCliRunWithStreams sampleInvocation false sampleWorld
    r.value = .ok ∧ ∃ ciphertext record, r.final.out.delivered = record ∧
      IsRecord sampleInvocation none (encode true ciphertext) record ∧
      ciphertext.drop cryptoBoxSealBytes = ascii "hi" := by
  intro r
  have hseals (key : Bytes) (keyId : Option Bytes) (publicKey : Bytes)
      (hacc : Acceptable sampleInvocation [] key keyId publicKey) :
      Seals referenceSodium (plaintextOf sampleInvocation []) publicKey := by
    obtain ⟨hkey, -⟩ := cliKeyText_unique (trim_noNul (keyTextOf_noNul fun h => absurd h (by decide)))
      hacc.keyText sample_acceptable.keyText
    have hpublic : IsKeyText (trim sampleKeyText.bytes) publicKey := hkey ▸ hacc.publicKey
    rw [hpublic.unique sample_acceptable.publicKey]
    exact sampleKey_seals _
  obtain ⟨hiff, -, hrecord⟩ := saltCliRunWithStreams_endToEnd sampleInvocation sampleWorld
    sampleWorld_starts (by decide) (by decide) (freshWorld_faultFree _ _ _) (fun _ => ⟨0, rfl⟩) rfl
    (fun h => absurd h (by decide)) _ _
    ⟨referenceSodium_follows, by decide, by simp [sampleWorld, freshWorld, calmEnv, referenceSodium],
      referenceSodium_inverts⟩ hseals
  obtain ⟨ciphertext, record, hdelivered, -, hrecord, hopens⟩ := hrecord _ _ _ sample_acceptable
  refine ⟨hiff.2 ⟨_, _, _, sample_acceptable⟩, ciphertext, record, hdelivered, hrecord, ?_⟩
  exact Option.some.inj (hopens [] trivial)

end Salt.EndToEnd
