import Salt.RoundtripHelperCorrect

set_option autoImplicit false

/-!
# From a fresh key pair through the program and back

The helper makes a key pair and prints it, a run seals a plaintext for it, and
the helper opens what the run put out.
-/
namespace Salt.RoundTrip
open ByteStrings Base64Text TracedState Sealing SealingCorrect StreamFacts Framing ArgumentsCorrect
  RunCorrect EndToEnd ArgvEndToEnd RoundtripHelper RoundtripHelperCorrect

def decryptCall (publicKeyB64 secretKeyB64 ciphertextB64 : CString) : List CString :=
  .ofAscii "decrypt" :: decryptWords publicKeyB64 secretKeyB64 ciphertextB64

theorem decryptArgs_words (pub sec ct : CString) :
    decryptArgs (decryptWords pub sec ct) ⟨none, none, none⟩ = .ok ⟨some pub, some sec, some ct⟩ :=
  rfl

section Helper
variable {env : HelperEnv}

theorem main_keygen (hinit : 0 ≤ env.sodium.init) {command : CString}
    (hc : command.bytes = ascii "keygen") : main env [command] = commandKeygen env := by
  unfold main
  simp only [if_neg (Int.not_lt.2 hinit), if_pos hc]

theorem main_decrypt (hinit : 0 ≤ env.sodium.init) {command first : CString}
    (hc : command.bytes = ascii "decrypt") (rest : List CString) :
    main env (command :: first :: rest) = commandDecrypt env (first :: rest) := by
  unfold main
  simp only [if_neg (Int.not_lt.2 hinit), if_pos hc]

/-- The helper opens a box of a message that is not empty and prints just that message. -/
theorem decrypt_prints (hf : FollowsLibsodium env.sodium) (hinit : 0 ≤ env.sodium.init)
    (hshorter : OpensShorter env.cryptoBoxSealOpen) (halloc : Allocates env)
    {publicKey secretKey ciphertext message : Bytes}
    (hpublic : publicKey.length = cryptoBoxPublicKeyBytes)
    (hsecret : secretKey.length = cryptoBoxSecretKeyBytes)
    (hopen : env.cryptoBoxSealOpen ciphertext publicKey secretKey = some message)
    (hne : message ≠ []) {p : Process} (hp : Working env p) (hacc : p.stdout.Accepts) :
    Ends (main env (decryptCall (textOf publicKey) (textOf secretKey) (textOf ciphertext))) p
      fun rc p' => rc = 0 ∧ accepted p'.stdout = accepted p.stdout ++ message := by
  have hdecrypts : Decrypts env (decryptWords (textOf publicKey) (textOf secretKey)
      (textOf ciphertext)) message :=
    ⟨_, _, _, publicKey, secretKey, decryptArgs_words _ _ _, ⟨rfl, hpublic⟩, ⟨rfl, hsecret⟩,
      ciphertext, rfl, hopen⟩
  rw [decryptCall, decryptWords, main_decrypt hinit rfl]
  refine (commandDecrypt_decided hf hshorter _ hp.secretKey).mono fun rc p' hdecided => ?_
  cases hdecided with
  | withheld _ _ hno => exact absurd halloc (hno message hdecrypts)
  | printed message' hd _ hrc hout =>
    obtain rfl := hd.unique hdecrypts
    have hok := write_of_accepts message' hacc
    obtain ⟨n, haccepted, hall⟩ := write_accepted message' p.stdout
    refine ⟨hrc.2 (.inr hok), ?_⟩
    rw [hout, withPrinted, if_neg hne, haccepted, hall hok]

end Helper

/-- A key pair printed by the helper, a plaintext sealed for it by a run without faults, and the
helper again on the two keys and the encrypted value of the record: what it prints is the plaintext.
The key may be given to the run in any form, and the record may be in either. -/
theorem keygen_seal_decrypt (inv : Invocation) (w : World) (env : HelperEnv)
    (keyPair : Bytes → Bytes → Prop) (hstart : Starts inv w)
    (hshape : saltCliHasValidArgvShape inv = true) (hasks : inv.events.any asksText = false)
    (hfree : FaultFree { w with interrupted := false }) (haccepts : w.out.Accepts)
    (hclear : w.out.errorFlag = false)
    (hnul : (optionState inv).keyFromStdin = true → 0 ∉ w.input.rest)
    (hworks : Works w.env.sodium keyPair env.cryptoBoxSealOpen)
    (hf : FollowsLibsodium env.sodium) (hinit : 0 ≤ env.sodium.init)
    (hshorter : OpensShorter env.cryptoBoxSealOpen) (halloc : Allocates env)
    (publicKey secretKey : Bytes) (hpair : env.keypair = (0, publicKey, secretKey))
    (hpublic : publicKey.length = cryptoBoxPublicKeyBytes)
    (hsecret : secretKey.length = cryptoBoxSecretKeyBytes) (hkeys : keyPair publicKey secretKey)
    (key : Bytes) (keyId : Option Bytes) (hacc : Acceptable inv w.input.rest key keyId publicKey)
    (hseals : Seals w.env.sodium (plaintextOf inv w.input.rest) publicKey)
    (scratch : ℕ → UInt8) (stdout stderr : OutStream) (hstdout : stdout.Accepts) :
    let start := startProcess scratch stdout stderr
    let keygen := main env [.ofAscii "keygen"] start
    let run := saltCliRunWithStreams inv false w
    (keygen.value = 0 ∧ accepted keygen.final.stdout = accepted stdout ++
      encode true publicKey ++ ascii "\n" ++ encode true secretKey ++ ascii "\n") ∧
    run.value = .ok ∧
    ∃ ciphertext record, run.final.out.delivered = accepted w.out ++ record ∧
      IsRecord inv keyId (textOf ciphertext).bytes record ∧
      let decrypt := main env
        (decryptCall (textOf publicKey) (textOf secretKey) (textOf ciphertext)) start
      decrypt.value = 0 ∧
        accepted decrypt.final.stdout = accepted stdout ++ plaintextOf inv w.input.rest := by
  intro start keygen run
  have hstarted : Working env start := startProcess_working scratch stdout stderr
  have hkeygen : Ends (main env [.ofAscii "keygen"]) start fun rc p' => rc = 0 ∧
      accepted p'.stdout = accepted stdout ++ encode true publicKey ++ ascii "\n" ++
        encode true secretKey ++ ascii "\n" := by
    rw [main_keygen hinit rfl]
    exact commandKeygen_prints hf hpair hpublic hsecret hstarted hstdout
  have hsealable : Sealable w.env.sodium inv w.input.rest key keyId publicKey := ⟨hacc, hseals⟩
  obtain ⟨hiff, -, hserved⟩ := run_served hstart hshape hfree haccepts hclear hnul hworks
  obtain ⟨ciphertext, record, hdelivered, -, hrecord, hopens⟩ :=
    (hserved hacc.options).recorded hasks key keyId publicKey hsealable
  have hne : plaintextOf inv w.input.rest ≠ [] := List.ne_nil_of_length_pos hacc.nonempty
  exact ⟨hkeygen, hiff.2 ⟨hacc.options, .inr ⟨key, keyId, publicKey, hsealable⟩⟩, ciphertext, record,
    hdelivered, hrecord, decrypt_prints hf hinit hshorter halloc hpublic hsecret
      (hopens secretKey hkeys) hne hstarted hstdout⟩

theorem referenceHelper_works :
    Works referenceSodium SamplePair referenceHelper.cryptoBoxSealOpen where
  follows := referenceSodium_follows
  init := by decide
  alloc := by simp [referenceSodium]
  box :=
    { length := referenceSodium_inverts.length
      opens := fun message publicKey secretKey h hpair => by
        rw [referenceSodium_seals h]
        simp [referenceHelper, hpair] }

theorem keygen_seal_decrypt_sample : ∃ ciphertext record,
    (saltCliRunWithStreams sampleInvocation false sampleWorld).final.out.delivered = record ∧
    IsRecord sampleInvocation none (textOf ciphertext).bytes record ∧
    accepted (main referenceHelper (decryptCall sampleKeyText (textOf sampleSecretKey)
      (textOf ciphertext)) (startProcess (fun _ => 0) emptyOutStream emptyOutStream)).final.stdout =
        ascii "hi" := by
  obtain ⟨-, -, ciphertext, record, hdelivered, hrecord, -, hprinted⟩ := keygen_seal_decrypt
    sampleInvocation sampleWorld referenceHelper _ sampleWorld_starts (by decide) (by decide)
    (freshWorld_faultFree _ _ _) (fun _ => ⟨0, rfl⟩) rfl (fun h => absurd h (by decide))
    referenceHelper_works referenceSodium_follows (by decide) referenceHelper_shorter
    referenceHelper_allocates _ _ rfl rfl rfl ⟨rfl, rfl⟩ _ _ sample_acceptable (sampleKey_seals _)
    (fun _ => 0) emptyOutStream emptyOutStream fun _ => ⟨0, rfl⟩
  exact ⟨ciphertext, record, hdelivered, hrecord, hprinted⟩

end Salt.RoundTrip
