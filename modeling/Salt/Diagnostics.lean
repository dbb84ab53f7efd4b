import Salt.TwoRunPipeline

set_option autoImplicit false

/-!
# Diagnostics do not depend on the plaintext

Two runs whose plaintexts have one length give one status and one error stream,
if the calls of both succeed and fail alike.
-/
namespace Salt.Diagnostics
open ByteStrings Base64Text BlockHeap TracedState Sealing SealingContract SealingCorrect StreamFacts
  Framing Tracking KeyLoading PlaintextLoading PreparationCorrect PipelineCorrect ArgumentsCorrect
  RunCorrect EndToEnd TwoRuns TwoRunStages TwoRunPipeline

/-- What `sodium_bin2base64` gives when it succeeds: the text of the format and its terminator. -/
def EncodesText (sodium : Sodium) : Prop :=
  ∀ maxLen bin text, (sodium.bin2base64 maxLen bin).2 = some text →
    text.bytes = encode true bin ∧ ∃ more, (sodium.bin2base64 maxLen bin).1 = encode true bin ++ 0 :: more

/-- The calls of two seals of these messages succeed and fail alike: `sodium_init`, the allocation,
the decoding of the key, `crypto_box_seal` and `sodium_bin2base64`. -/
structure SameLibrary (W : SizeWidth) (sodium sodium' : Sodium) (message message' : Bytes) : Prop where
  init : sodium.init < 0 ↔ sodium'.init < 0
  alloc : sodium.alloc.isSome = sodium'.alloc.isSome
  keyDecode : ∀ text, (decodedKey W sodium text).1 = (decodedKey W sodium' text).1
  boxSeal : ∀ text, boxSealFails W sodium message text = boxSealFails W sodium' message' text
  encode : ∀ text output output', output.length = output'.length →
    (encoded W sodium message text output).isSome = (encoded W sodium' message' text output').isSome

section Seals
variable {W : SizeWidth} {sodium sodium' : Sodium} {message message' text b b' : Bytes}

theorem verbatim_encode (bin : Bytes) : ∀ c ∈ encode true bin, Verbatim c := by
  have hchar : ∀ v < 64, Verbatim (valueChar v) := by
    have hall : ∀ v < 64, 0x20 ≤ valueChar v ∧ valueChar v ≠ 34 ∧ valueChar v ≠ 92 := by decide
    exact fun v hv => ⟨(hall v hv).1, (hall v hv).2.1, (hall v hv).2.2⟩
  intro c hc
  rcases List.mem_append.1 hc with hc | hc
  · obtain ⟨v, hv, rfl⟩ := List.mem_map.1 hc
    exact hchar v (encodeValues_lt bin v hv)
  · obtain rfl : c = 61 := (List.mem_replicate.1 hc).2
    exact ⟨by decide, by decide, by decide⟩

theorem sameWrites_verbatim {v v' : Bytes} (hlen : v.length = v'.length) (hv : ∀ c ∈ v, Verbatim c)
    (hv' : ∀ c ∈ v', Verbatim c) : SameWrites False v v' := by
  induction v generalizing v' with
  | nil =>
    obtain rfl := List.length_eq_zero_iff.1 hlen.symm
    exact .nil
  | cons c v ih =>
    cases v' with
    | nil => exact absurd hlen (by simp)
    | cons c' v' =>
      refine .cons ⟨False.elim, .inr ⟨hv c (by simp), hv' c' (by simp)⟩⟩ (ih ?_ ?_ ?_)
      · exact Nat.succ.inj hlen
      · exact fun x hx => hv x (List.mem_cons_of_mem c hx)
      · exact fun x hx => hv' x (List.mem_cons_of_mem c' hx)

theorem sameSealed_of_failed {r r' : SealResult} (rc : SaltStatus) (hrc : rc ≠ .ok)
    (hstatus : r.status = rc) (hstatus' : r'.status = rc)
    (hwritten : r.outputWritten = r'.outputWritten) (herror : r.error = r'.error)
    (hb : r.output = some b) (hb' : r'.output = some b') (hlen : b.length = b'.length) :
    SameSealed False r r' :=
  ⟨hstatus.trans hstatus'.symm, hwritten, herror, b, b', hb, hb', ⟨hlen, False.elim⟩,
    fun hok => absurd (hstatus.symm.trans hok) hrc⟩

theorem sealCiphertext_alike (hlib : SameLibrary W sodium sodium' message message')
    (htext : EncodesText sodium) (htext' : EncodesText sodium')
    (hmessage : message.length = message'.length) (hb : b.length = b'.length)
    (hmax : message.length ≤ saltMaxMessageLen)
    (hcap : saltRequiredBase64OutputLen W message.length ≤ b.length) (written : Option ℕ)
    (error : Option Bytes) :
    SameSealed False
      (sealCiphertext sodium message b written error (decodedKey W sodium text).2)
      (sealCiphertext sodium' message' b' written error (decodedKey W sodium' text).2) := by
  have hbox := hlib.boxSeal text
  have hencode := hlib.encode text b b' hb
  unfold boxSealFails at hbox
  unfold encoded at hencode
  unfold sealCiphertext
  have halloc := hlib.alloc
  rcases hcontent : sodium.alloc with _ | content <;>
    rcases hcontent' : sodium'.alloc with _ | content'
  · exact sameSealed_of_failed .errInternal (by decide) rfl rfl rfl rfl rfl rfl hb
  · rw [hcontent, hcontent'] at halloc
    exact Bool.noConfusion halloc
  · rw [hcontent, hcontent'] at halloc
    exact Bool.noConfusion halloc
  rw [hcontent, hcontent', Option.bind_some, Option.bind_some] at hencode
  have hlength := sealedBlock_length sodium message (decodedKey W sodium text).2 content
  have hlength' := sealedBlock_length sodium' message' (decodedKey W sodium' text).2 content'
  simp only [← sealedBlock.eq_def]
  generalize sealedBlock sodium message (decodedKey W sodium text).2 content = c at *
  generalize sealedBlock sodium' message' (decodedKey W sodium' text).2 content' = c' at *
  have hsame := decide_eq_decide.1 hbox
  by_cases hseal : (sodium.cryptoBoxSeal message (decodedKey W sodium text).2).1 ≠ 0
  · rw [if_pos hseal, if_pos (hsame.1 hseal)]
    exact sameSealed_of_failed .errCrypto (by decide) rfl rfl rfl rfl rfl rfl hb
  rw [if_neg hseal, if_neg (mt hsame.2 hseal)]
  have hsize : (put b (sodium.bin2base64 b.length c).1).length =
      (put b' (sodium'.bin2base64 b'.length c').1).length := by
    rw [put_length, put_length, hb]
  rcases htexts : (sodium.bin2base64 b.length c).2 with _ | value <;>
    rcases htexts' : (sodium'.bin2base64 b'.length c').2 with _ | value'
  · exact sameSealed_of_failed .errInternal (by decide) rfl rfl rfl rfl rfl rfl hsize
  · rw [htexts, htexts'] at hencode
    exact Bool.noConfusion hencode
  · rw [htexts, htexts'] at hencode
    exact Bool.noConfusion hencode
  obtain ⟨hvalue, more, hput⟩ := htext _ _ _ htexts
  obtain ⟨hvalue', more', hput'⟩ := htext' _ _ _ htexts'
  have hlen : (encode true c).length = (encode true c').length := by
    rw [encode_length_padded, encode_length_padded, hlength, hlength', hmessage]
  have hfits : (encode true c).length < b.length := by
    have hreq := (saltRequiredBase64OutputLen_eq W hmax).1
    rw [encode_length_padded, hlength]
    omega
  refine ⟨rfl, ?_, rfl, _, _, rfl, rfl, ⟨hsize, False.elim⟩, fun _ => ?_⟩
  · simp only [hvalue, hvalue', hlen]
  · obtain ⟨rest, hrest⟩ := put_text hfits more
    obtain ⟨rest', hrest'⟩ := put_text (show (encode true c').length < b'.length by omega) more'
    rw [hput, hput', hrest, hrest', cstr_append_zero (text_noNul _ _), cstr_append_zero (text_noNul _ _)]
    exact sameWrites_verbatim hlen (verbatim_encode c) (verbatim_encode c')

theorem saltSealBase64Keylen_alike (hlib : SameLibrary W sodium sodium' message message')
    (htext : EncodesText sodium) (htext' : EncodesText sodium')
    (hmessage : message.length = message'.length) (hb : b.length = b'.length) (text : Bytes)
    (written : Option ℕ) (error : Option Bytes) :
    SameSealed False
      (saltSealBase64Keylen W sodium (some message) (some text) (some b) written error)
      (saltSealBase64Keylen W sodium' (some message') (some text) (some b') written error) := by
  have hvalid : saltValidateSealInputs (some message) (some text) (some b) error =
      saltValidateSealInputs (some message') (some text) (some b') error := by
    simp only [saltValidateSealInputs, hmessage]
  have hcapacity (error : Option Bytes) : saltValidateOutputCapacity W message.length b.length error =
      saltValidateOutputCapacity W message'.length b'.length error := by
    rw [hmessage, hb]
  unfold saltSealBase64Keylen
  simp only [← hvalid]
  by_cases hbad : (saltValidateSealInputs (some message) (some text) (some b) error).1 ≠ .ok
  · rw [if_pos hbad, if_pos hbad]
    exact sameSealed_of_failed _ hbad rfl rfl rfl rfl rfl rfl hb
  rw [if_neg hbad, if_neg hbad]
  by_cases hinit : sodium.init < 0
  · rw [if_pos hinit, if_pos (hlib.init.1 hinit)]
    exact sameSealed_of_failed .errCrypto (by decide) rfl rfl rfl rfl rfl rfl hb
  rw [if_neg hinit, if_neg fun h => hinit (hlib.init.2 h)]
  have hmax : message.length ≤ saltMaxMessageLen := by
    by_contra hlong
    exact hbad (by simp [saltValidateSealInputs, Nat.not_le.1 hlong])
  have hcleanup {r r' : SealResult} (h : SameSealed False r r') (n n' : ℕ) :
      SameSealed False (sealCleanup sodium n r) (sealCleanup sodium' n' r') :=
    ⟨h.status, h.written, h.error, h.output⟩
  refine hcleanup ?_ _ _
  unfold sealLocked
  simp only [← decodedKey.eq_def]
  have hkey := hlib.keyDecode text
  by_cases hdecode : (decodedKey W sodium text).1 = false
  · rw [if_pos hdecode, if_pos (hkey.symm.trans hdecode)]
    exact sameSealed_of_failed .errInput (by decide) rfl rfl rfl rfl rfl rfl hb
  rw [if_neg hdecode, if_neg fun h => hdecode (hkey.trans h), ← hcapacity]
  by_cases hfull : (saltValidateOutputCapacity W message.length b.length
      (saltValidateSealInputs (some message) (some text) (some b) error).2).1 ≠ .ok
  · rw [if_pos hfull, if_pos hfull]
    exact sameSealed_of_failed _ hfull rfl rfl rfl rfl rfl rfl hb
  rw [if_neg hfull, if_neg hfull]
  refine sealCiphertext_alike hlib htext htext' hmessage hb hmax ?_ _ _
  by_contra hsmall
  exact hfull (by simp [saltValidateOutputCapacity, Nat.not_le.1 hsmall])

theorem saltSealBase64_alike (hlib : SameLibrary W sodium sodium' message message')
    (htext : EncodesText sodium) (htext' : EncodesText sodium')
    (hmessage : message.length = message'.length) (hb : b.length = b'.length) (key : CString)
    (written : Option ℕ) (error : Option Bytes) :
    SameSealed False
      (saltSealBase64 W sodium (some message) (some key) (some b) written error)
      (saltSealBase64 W sodium' (some message') (some key) (some b') written error) :=
  saltSealBase64Keylen_alike hlib htext htext' hmessage hb _ _ _

end Seals

def Stored (message : Bytes) (w : World) : Prop :=
  ∃ id, w.state.message = some id ∧ id < w.heap.length ∧
    messageBytes (blockBytes w id) w.state.messageLen = message

section Stages
variable {w₀ w w' : World} {v : View}

theorem behindKey_loaded (h : Tracks w₀ v w) (hr : Ready v)
    (hok : (saltCliInputLoadKeyInput w).value = .ok) :
    ∃ key keyId v₁, KeyLoaded v key keyId v₁ ∧ Tracks w₀ v₁ (behindKey w) := by
  rcases saltCliInputLoadKeyInput_loaded h hr.tidy hr.stdinKey hr.trimmedKeyInput hr.keyOption with
    ⟨-, -, key, keyId, v₁, -, hkey, h₁⟩ | ⟨hf, -⟩
  · exact ⟨key, keyId, v₁, hkey, h₁⟩
  · exact absurd hok hf.ne_ok

theorem behindKey_stdin (h : Tracks w₀ v w) (hr : Ready v)
    (hok : (saltCliInputLoadKeyInput w).value = .ok) :
    (behindKey w).state.plaintextFromStdin = v.state.plaintextFromStdin := by
  obtain ⟨key, keyId, v₁, hkey, h₁⟩ := behindKey_loaded h hr hok
  obtain ⟨_, _, _, _, _, _, hstate, -, -⟩ := hkey.state
  rw [h₁.state, hstate]
  rfl

theorem behindPlaintext_stored (h : Tracks w₀ v w) (hr : Ready v)
    (hkeyOk : (saltCliInputLoadKeyInput w).value = .ok)
    (hok : (saltCliInputLoadPlaintext (behindKey w)).value = .ok) :
    Stored (plaintextSource v) (behindPlaintext w) := by
  obtain ⟨key, keyId, v₁, hkey, h₁⟩ := behindKey_loaded h hr hkeyOk
  have hplain := plaintextSource_loaded hr hkey
  obtain ⟨_, _, _, _, _, _, hstate, -, -⟩ := hkey.state
  have hend := saltCliInputLoadPlaintext_stored h₁ hkey.tidy
    (by rw [hstate]; exact hr.stdinPlaintext) (by rw [hstate]; exact hr.argvPlaintextCopy)
    (by rw [hplain, hstate]; exact hr.plaintext)
  rw [hplain] at hend
  rcases hend with ⟨-, -, -, v₂, hstored, h₂⟩ | ⟨hf, -⟩
  · obtain ⟨_, _, _, id, hstate₂, hbytes, hlt⟩ := hstored.state
    refine ⟨id, ?_, ?_, ?_⟩
    · rw [behindPlaintext, h₂.state, hstate₂]
    · rw [behindPlaintext, h₂.heap]
      exact hlt
    · rw [behindPlaintext, h₂.blockBytes, h₂.state, hstate₂]
      exact hbytes
  · exact absurd hok hf.ne_ok

theorem parsed_ready {inv : Invocation} (hstart : Starts inv w)
    (hok : (saltCliArgsParseArguments inv (resetWorld false w)).value = .ok)
    (hflags : ((behindArguments inv (resetWorld false w)).state.showHelp ||
      (behindArguments inv (resetWorld false w)).state.showVersion) = false) :
    Tracks (resetWorld false w) (stagesView inv w) (behindArguments inv (resetWorld false w)) ∧
      Ready (stagesView inv w) := by
  have hreset : ResetWorld w (resetWorld false w) := resetWorld_starts hstart rfl
  have htracks : Tracks (resetWorld false w) (startView w) (resetWorld false w) := by
    rw [← hreset.view]
    exact .refl _
  have hparse : Ends (saltCliArgsParseArguments inv) (resetWorld false w) (ParseEnds inv _ _ _) :=
    saltCliArgsParseArguments_ends htracks rfl hstart.heap
  cases hparse with
  | misused _ _ _ hrc => rcases hrc with hrc | hrc <;> exact absurd (hok.symm.trans hrc) (by decide)
  | informed _ hasks hd =>
    have hasked := withOptions_asks inv.events initState
    rw [hasks, Bool.or_true] at hasked
    obtain ⟨error, hm⟩ := hd.minded
    have hshow : ((behindArguments inv (resetWorld false w)).state.showHelp ||
        (behindArguments inv (resetWorld false w)).state.showVersion) = true := by
      rw [behindArguments, hm.tracks.state]
      exact hasked
    exact absurd (hshow.symm.trans hflags) (by decide)
  | declined _ _ _ hd _ => exact absurd hok hd.rejected.ne_ok
  | accepted _ _ hadm _ h _ =>
    exact ⟨h, optionState_ready (v := startView w) inv hadm hstart.heap hstart.positionals⟩

/-- Runs in which nothing but sizes is shared, besides the input as far as it is read. -/
def apart (stdin input : Prop) : Known := ⟨False, stdin, input, False⟩

theorem sealsAlike_of_stored {stdin input : Prop} {k k' : ℕ} {message message' : Bytes}
    (hw : Stored message w) (hw' : Stored message' w') (hlen : message.length = message'.length)
    (hlib : SameLibrary w.env.width w.env.sodium w'.env.sodium message message')
    (htext : EncodesText w.env.sodium) (htext' : EncodesText w'.env.sodium) :
    SealsAlike (apart stdin input).polled k k' w w' := by
  intro j b b' s u u' h hs hkept hkept' hb hb'
  have hseal {n : ℕ} {w u : World} {message b : Bytes} (hw : Stored message w) (hkept : Kept w u)
      (hu : u.state = moved n s) (hb : blockBytes u (n + j) = b) :
      sealState u = saltSealBase64 w.env.width w.env.sodium (some message)
        (some (CString.ofBuffer s.parsedKeyB64)) (some b) (some s.outputWritten) (some s.error) := by
    obtain ⟨id, hid, hlt, hbytes⟩ := hw
    have hmessage : (u.state.message.map fun id => messageBytes (blockBytes u id) u.state.messageLen) =
        some message := by
      rw [hkept.message, hid, Option.map_some, hkept.messageLen, hkept.blocks id hlt, hbytes]
    have houtput : u.state.output.map (blockBytes u) = some b := by
      rw [hu, show (moved n s).output = some (n + j) from congrArg (Option.map (n + ·)) hs,
        Option.map_some, hb]
    unfold sealState
    rw [hmessage, houtput, hkept.env, hu]
    rfl
  have hwidth : w'.env.width = w.env.width := by
    rw [← hkept.env, ← hkept'.env]
    exact h.alike.env.width.symm
  rw [hseal hw hkept h.state h.block, hseal hw' hkept' h.state' h.block', hwidth]
  exact saltSealBase64_alike hlib htext htext' hlen hb'.symm _ _ _

end Stages

structure SameOptions (inv inv' : Invocation) : Prop where
  argc : inv.argc = inv'.argc
  argv : inv.argv.isSome = inv'.argv.isSome
  pointers : ∀ i, (inv.arg i).isSome = (inv'.arg i).isSome
  program : inv.arg 0 = inv'.arg 0
  events : inv.events = inv'.events

/-- Plaintexts of one length, both from the input, or both from the selected argument. The key input
is the same. -/
inductive SamePlaintext (inv inv' : Invocation) (w w' : World) : Prop where
  | stdin (hpositionals : inv.positionals = inv'.positionals)
      (hstdin : (optionState inv).plaintextFromStdin = true) (hinput : SameInput False w.input w'.input)
  | argument (plaintext plaintext' : CString) (rest : List CString)
      (h : inv.positionals = plaintext :: rest) (h' : inv'.positionals = plaintext' :: rest)
      (hmarker : plaintext.bytes ≠ ascii "-") (hmarker' : plaintext'.bytes ≠ ascii "-")
      (hlen : plaintext.bytes.length = plaintext'.bytes.length)
      (hinput : (optionState inv).keyFromStdin = true → w.input = w'.input)

/-- Two processes in which the calls of a run succeed and fail alike, and the same signals arrive. -/
structure SameOutcomes (w w' : World) : Prop where
  env : SameAnswers False w.env w'.env
  clock : w.clock = w'.clock
  out : SameOut False w.out w'.out
  err : w.err = w'.err
  disposition : w.disposition = w'.disposition
  saved : w.saved = w'.saved

section Run
variable {inv inv' : Invocation} {w w' : World}

theorem SamePlaintext.selects (h : SamePlaintext inv inv' w w') :
    inv.positionals.length = inv'.positionals.length ∧
      selectPositionals inv.positionals = selectPositionals inv'.positionals := by
  cases h with
  | stdin hpositionals _ _ => rw [hpositionals]; exact ⟨rfl, rfl⟩
  | argument plaintext plaintext' rest h h' hmarker hmarker' _ _ =>
    rw [h, h']
    refine ⟨rfl, funext fun s => ?_⟩
    simp [selectPositionals, hmarker, hmarker']

theorem SamePlaintext.command (h : SamePlaintext inv inv' w w') (hoptions : SameOptions inv inv') :
    SameCommand inv inv' where
  shape := by
    unfold saltCliHasValidArgvShape
    simp only [hoptions.argc, hoptions.argv, hoptions.pointers, hoptions.program]
  events := hoptions.events
  program := by rw [Invocation.program, Invocation.program, hoptions.program]
  count := h.selects.1
  selects := h.selects.2

theorem SamePlaintext.optionState (h : SamePlaintext inv inv' w w') (hoptions : SameOptions inv inv') :
    optionState inv = optionState inv' := by
  rw [RunCorrect.optionState, RunCorrect.optionState, h.selects.2, hoptions.events]

theorem SamePlaintext.length (h : SamePlaintext inv inv' w w') (hoptions : SameOptions inv inv') :
    (plaintextOf inv w.input.rest).length = (plaintextOf inv' w'.input.rest).length := by
  have hstate := h.optionState hoptions
  cases h with
  | stdin _ hstdin hinput =>
    rw [plaintextOf, plaintextOf, ← hstate, if_pos hstdin, if_pos hstdin]
    exact hinput.length
  | argument plaintext plaintext' rest h h' hmarker _ hlen _ =>
    have hargument : ¬ (RunCorrect.optionState inv).plaintextFromStdin = true := by
      simp [RunCorrect.optionState, selectPositionals, h, hmarker]
    rw [plaintextOf, plaintextOf, ← hstate, if_neg hargument, if_neg hargument, h, h']
    exact hlen

/-- How far the runs read the same input: none of it, or only its size, or all of it. -/
def sharedInput (inv : Invocation) : Known :=
  apart ((optionState inv).plaintextFromStdin = true ∨ (optionState inv).keyFromStdin = true)
    ((optionState inv).keyFromStdin = true ∧ (optionState inv).plaintextFromStdin = false)

theorem sameArg_of_noNul {a b : CString} (h : a.bytes.length = b.bytes.length) :
    SameArg False a.bytes b.bytes :=
  ⟨⟨h, False.elim⟩, by rw [cstr_of_noNul a.noNul, cstr_of_noNul b.noNul, h]⟩

theorem start_alike (hstart : Starts inv w) (hstart' : Starts inv' w')
    (hplaintext : SamePlaintext inv inv' w w') (houtcomes : SameOutcomes w w') :
    Alike (sharedInput inv) w.heap.length w'.heap.length (cleared w) (cleared w') where
  env := houtcomes.env
  clock := houtcomes.clock
  state := ⟨zeroState, rfl, rfl⟩
  size := ⟨0, rfl, rfl⟩
  bytes j := by
    change Fits _ (bytesAt w.heap _) (bytesAt w'.heap _)
    rw [bytesAt_beyond, bytesAt_beyond]
    exact .refl _ _
  positionals := by
    change List.Forall₂ _ w.positionals w'.positionals
    rw [hstart.positionals, hstart'.positionals]
    cases hplaintext with
    | stdin hpositionals _ _ =>
      rw [hpositionals]
      exact sameArg_all _ _
    | argument _ _ _ h h' _ _ hlen _ =>
      rw [h, h']
      exact .cons (sameArg_of_noNul hlen) (sameArg_all _ _)
  input hstdin := by
    cases hplaintext with
    | stdin _ hsource hinput =>
      refine { hinput with rest := fun hshared => ?_ }
      exact absurd (hsource.symm.trans hshared.2) (by decide)
    | argument plaintext _ _ h _ hmarker _ _ hinput =>
      have hkey : (optionState inv).keyFromStdin = true := hstdin.resolve_left (by
        simp [optionState, selectPositionals, h, hmarker])
      change SameInput _ w.input w'.input
      rw [hinput hkey]
      exact ⟨rfl, fun _ => rfl, rfl, rfl, rfl, rfl⟩
  out := houtcomes.out
  err := houtcomes.err
  interrupted h := h.elim
  disposition := houtcomes.disposition
  saved := houtcomes.saved

theorem sameKey_of_options {w₀ w₀' : World} {v v' : View} (hw : Tracks w₀ v w)
    (hw' : Tracks w₀' v' w') (hv : v.state = optionState inv) (hv' : v'.state = optionState inv) :
    SameKey False w w' := by
  refine ⟨.inl ?_, False.elim⟩
  rw [keySourceOf, keySourceOf, hw.state, hw'.state, hv, hv']
  cases hkey : (optionState inv).keyOption with
  | none => rfl
  | some ref =>
    obtain ⟨key, rfl⟩ := withOptions_keyOption inv.events ref hkey
    rfl

/-- The status and the error stream of a run do not depend on the plaintext. -/
theorem saltCliRunWithStreams_plaintextIndependent (inv inv' : Invocation) (nullStream : Bool)
    (w w' : World) (hstart : Starts inv w) (hstart' : Starts inv' w')
    (hoptions : SameOptions inv inv') (hplaintext : SamePlaintext inv inv' w w')
    (houtcomes : SameOutcomes w w')
    (hlib : SameLibrary w.env.width w.env.sodium w'.env.sodium (plaintextOf inv w.input.rest)
      (plaintextOf inv' w'.input.rest))
    (htext : EncodesText w.env.sodium) (htext' : EncodesText w'.env.sodium) :
    let r := saltCliRunWithStreams inv nullStream w
    let r' := saltCliRunWithStreams inv' nullStream w'
    r.value = r'.value ∧ r.final.err = r'.final.err := by
  intro r r'
  have hrun := saltCliRunWithStreamsInternal_jointly (hplaintext.command hoptions) nullStream false
    (start_alike hstart hstart' hplaintext houtcomes) fun u u' hu hw hw' => ?_
  · exact ⟨hrun.1, hrun.2.err⟩
  subst hw hw'
  refine runArguments_jointly hu (hplaintext.command hoptions) fun hok hok' hflags hx => ?_
  have hflags' : ((behindArguments inv' (resetWorld false w')).state.showHelp ||
      (behindArguments inv' (resetWorld false w')).state.showVersion) = false := by
    obtain ⟨s, hs, hs'⟩ := hx.state
    rw [hs] at hflags
    rw [hs']
    exact hflags
  obtain ⟨hparsed, hready⟩ := parsed_ready hstart hok hflags
  obtain ⟨hparsed', hready'⟩ := parsed_ready hstart' hok' hflags'
  have henv {w : World} {inv : Invocation} (hstart : Starts inv w)
      (hparsed : Tracks (resetWorld false w) (stagesView inv w)
        (behindArguments inv (resetWorld false w))) :
      (behindPlaintext (behindArguments inv (resetWorld false w))).env = w.env :=
    (saltCliInputLoadPlaintext_internal.advances _).env.trans
      ((saltCliInputLoadKeyInput_internal.advances _).env.trans
        (hparsed.env.trans (resetWorld_starts hstart rfl).env))
  refine encryptStages_jointly hx trivial False.elim
    (sameKey_of_options hparsed hparsed' rfl (hplaintext.optionState hoptions).symm) ?_ ?_ ?_
  · intro hkey
    rw [hparsed.state] at hkey
    refine ⟨.inr hkey, hkey, ?_⟩
    rw [← Bool.not_eq_true]
    exact fun hplain => hready.sources ⟨hkey, hplain⟩
  · intro hkeyOk hplain
    rw [behindKey_stdin hparsed hready hkeyOk] at hplain
    exact .inl hplain
  · intro hkeyOk hkeyOk' hplainOk hplainOk'
    have hstored := behindPlaintext_stored hparsed hready hkeyOk hplainOk
    have hstored' := behindPlaintext_stored hparsed' hready' hkeyOk' hplainOk'
    rw [plaintextSource_stagesView hstart] at hstored
    rw [plaintextSource_stagesView hstart'] at hstored'
    refine sealsAlike_of_stored hstored hstored' (hplaintext.length hoptions) ?_ ?_ ?_
    · rw [henv hstart hparsed, henv hstart' hparsed']
      exact hlib
    · rw [henv hstart hparsed]
      exact htext
    · rw [henv hstart' hparsed']
      exact htext'

end Run

theorem referenceSodium_encodesText : EncodesText referenceSodium := by
  intro maxLen bin text h
  have hrun (h : (encode true bin).length < maxLen) : referenceSodium.bin2base64 maxLen bin =
      (encode true bin ++ [0], some ⟨encode true bin, text_noNul true bin⟩) := if_pos h
  by_cases hfits : (encode true bin).length < maxLen
  · rw [hrun hfits] at h ⊢
    obtain rfl := Option.some.inj h
    exact ⟨rfl, [], rfl⟩
  · have hnone : referenceSodium.bin2base64 maxLen bin = ([], none) := if_neg hfits
    rw [hnone] at h
    cases h

theorem referenceSodium_same (W : SizeWidth) {message message' : Bytes}
    (hlen : message.length = message'.length) :
    SameLibrary W referenceSodium referenceSodium message message' where
  init := .rfl
  alloc := rfl
  keyDecode _ := rfl
  boxSeal text := by
    simp only [boxSealFails, referenceSodium]
    split_ifs <;> rfl
  encode text output output' houtput := by
    have hrun (message output : Bytes) :
        (encoded W referenceSodium message text output).isSome =
          decide (4 * ((message.length + cryptoBoxSealBytes + 2) / 3) < output.length) := by
      have hlength := sealedBlock_length referenceSodium message
        (decodedKey W referenceSodium text).2 fun _ => 0xAA
      rw [← hlength, ← encode_length_padded]
      change (if _ then _ else _ : Bytes × Option CString).2.isSome = _
      split_ifs with hfits
      · exact (decide_eq_true hfits).symm
      · exact (decide_eq_false hfits).symm
    rw [hrun, hrun, hlen, houtput]

def otherPlaintext : CString := ⟨ascii "no", by decide⟩

def otherInvocation : Invocation := { sampleInvocation with
  argv := sampleInvocation.argv.map fun argv => argv.set 3 (some otherPlaintext)
  positionals := [otherPlaintext] }

def otherWorld : World := { sampleWorld with positionals := [ascii "no"] }

theorem saltCliRunWithStreams_plaintextIndependent_sample :
    let r := saltCliRunWithStreams sampleInvocation false sampleWorld
    let r' := saltCliRunWithStreams otherInvocation false otherWorld
    r.value = r'.value ∧ r.final.err = r'.final.err := by
  have hpointers (i : ℕ) : (sampleInvocation.arg i).isSome = (otherInvocation.arg i).isSome := by
    rcases i with _ | _ | _ | _ | i <;> rfl
  exact saltCliRunWithStreams_plaintextIndependent sampleInvocation otherInvocation false sampleWorld
    otherWorld sampleWorld_starts ⟨rfl, fun _ hb => absurd hb List.not_mem_nil⟩
    ⟨rfl, rfl, hpointers, rfl, rfl⟩
    (.argument _ _ [] rfl rfl (by decide) (by decide) rfl fun _ => rfl)
    ⟨⟨False.elim, rfl, rfl, rfl, fun _ => rfl, fun _ => .rfl, rfl, rfl⟩, rfl, ⟨False.elim, rfl, rfl, rfl⟩,
      rfl, rfl, rfl⟩
    (referenceSodium_same _ rfl) referenceSodium_encodesText referenceSodium_encodesText

end Salt.Diagnostics
