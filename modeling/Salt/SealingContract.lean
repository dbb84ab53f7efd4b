import Salt.Sealing

set_option autoImplicit false

/-!
# Which stage of a seal fails, and what is left behind

The stages are predicates on the arguments and on the outcomes of the library
calls. Every path through the sealing function is the path of its first
failing stage.
-/
namespace Salt.SealingContract
open ByteStrings BlockHeap Sealing

inductive SealStage where
  | nullArguments
  | messageLength
  | emptyKey
  | sodiumInit
  | keyDecode
  | outputCapacity
  | allocation
  | boxSeal
  | encode
deriving DecidableEq

def SealStage.status : SealStage → SaltStatus
  | .nullArguments | .messageLength | .emptyKey | .keyDecode | .outputCapacity => .errInput
  | .sodiumInit | .boxSeal => .errCrypto
  | .allocation | .encode => .errInternal

/-- The stages that run with the key scratch in use, and with a ciphertext block. -/
def SealStage.usesKey : SealStage → Bool
  | .nullArguments | .messageLength | .emptyKey | .sodiumInit => false
  | _ => true

def SealStage.usesCiphertext : SealStage → Bool
  | .boxSeal | .encode => true
  | _ => false

def sealStages : List SealStage :=
  [.nullArguments, .messageLength, .emptyKey, .sodiumInit, .keyDecode, .outputCapacity,
    .allocation, .boxSeal, .encode]

def decodedKey (W : SizeWidth) (sodium : Sodium) (publicKeyB64 : Bytes) : Bool × Bytes :=
  decodePublicKey W sodium publicKeyB64 (fresh sodium.scratch cryptoBoxPublicKeyBytes)

def sealedBlock (sodium : Sodium) (message publicKey : Bytes) (content : ℕ → UInt8) : Bytes :=
  put (fresh content (message.length + cryptoBoxSealBytes))
    (sodium.cryptoBoxSeal message publicKey).2

section Stages
variable (W : SizeWidth) (sodium : Sodium) (message publicKeyB64 output : Bytes)

def boxSealFails : Bool :=
  (sodium.cryptoBoxSeal message (decodedKey W sodium publicKeyB64).2).1 ≠ 0

def encoded : Option CString :=
  sodium.alloc.bind fun content =>
    (sodium.bin2base64 output.length
      (sealedBlock sodium message (decodedKey W sodium publicKeyB64).2 content)).2

end Stages

def SealStage.fails (W : SizeWidth) (sodium : Sodium) (message publicKeyB64 output : Option Bytes) :
    SealStage → Bool
  | .nullArguments => message = none ∨ publicKeyB64 = none ∨ output = none
  | .messageLength =>
    (message.getD []).length = 0 ∨ saltMaxMessageLen < (message.getD []).length
  | .emptyKey => (publicKeyB64.getD []).length = 0
  | .sodiumInit => sodium.init < 0
  | .keyDecode => (decodedKey W sodium (publicKeyB64.getD [])).1 = false
  | .outputCapacity =>
    saltRequiredBase64OutputLen W (message.getD []).length = sizeMax W ∨
      (output.getD []).length < saltRequiredBase64OutputLen W (message.getD []).length
  | .allocation => sodium.alloc.isNone
  | .boxSeal => boxSealFails W sodium (message.getD []) (publicKeyB64.getD [])
  | .encode => encoded W sodium (message.getD []) (publicKeyB64.getD []) (output.getD []) = none

def firstFailure (W : SizeWidth) (sodium : Sodium) (message publicKeyB64 output : Option Bytes) :
    Option SealStage :=
  sealStages.find? (SealStage.fails W sodium message publicKeyB64 output)

/-- What a call of `salt_seal_base64_keylen` leaves behind. -/
structure SealContract (W : SizeWidth) (sodium : Sodium)
    (message publicKeyB64 output : Option Bytes) (outputWritten : Option ℕ)
    (error : Option Bytes) (r : SealResult) : Prop where
  status : r.status =
    (firstFailure W sodium message publicKeyB64 output).elim .ok SealStage.status
  written_zero : r.status ≠ .ok → r.outputWritten = outputWritten.map fun _ => 0
  written : r.status = .ok → ∃ text,
    encoded W sodium (message.getD []) (publicKeyB64.getD []) (output.getD []) = some text ∧
      r.outputWritten = outputWritten.map fun _ => text.bytes.length
  error_kept : r.status = .ok → r.error = error
  error_reported : r.status ≠ .ok → Reported error r.error
  output_kept : ∀ stage ∈ firstFailure W sodium message publicKeyB64 output,
    stage ≠ .encode → r.output = output
  output_encoded : r.status = .ok → ∃ content, sodium.alloc = some content ∧
    r.output = output.map fun buffer => put buffer (sodium.bin2base64 buffer.length
      (sealedBlock sodium (message.getD [])
        (decodedKey W sodium (publicKeyB64.getD [])).2 content)).1
  allocated : r.ciphertext.isSome ↔
    ∀ stage ∈ firstFailure W sodium message publicKeyB64 output, stage.usesCiphertext = true
  ciphertext_disposed : ∀ b ∈ r.ciphertext,
    b.size = (message.getD []).length + cryptoBoxSealBytes ∧ b.Disposed
  key_used : r.publicKey.isSome ↔
    ∀ stage ∈ firstFailure W sodium message publicKeyB64 output, stage.usesKey = true
  key_wiped : ∀ b ∈ r.publicKey, b.bytes = List.replicate cryptoBoxPublicKeyBytes 0

section Contract
variable {W : SizeWidth} {sodium : Sodium} {message publicKeyB64 output : Option Bytes}
  {outputWritten : Option ℕ} {error : Option Bytes}

theorem sealStage_status_ne_ok (stage : SealStage) : stage.status ≠ .ok := by
  cases stage <;> simp [SealStage.status]

/-- A path that fails at a stage, from the facts that depend on the stage. -/
theorem SealContract.failed {stage : SealStage} {text : Bytes} {out : Option Bytes}
    {key ciphertext : Option Block}
    (hfirst : firstFailure W sodium message publicKeyB64 output = some stage)
    (htext : cstr text ≠ []) (hout : stage ≠ .encode → out = output)
    (hciphertext : ciphertext.isSome = stage.usesCiphertext)
    (hdisposed : ∀ b ∈ ciphertext,
      b.size = (message.getD []).length + cryptoBoxSealBytes ∧ b.Disposed)
    (hkey : key.isSome = stage.usesKey)
    (hwiped : ∀ b ∈ key, b.bytes = List.replicate cryptoBoxPublicKeyBytes 0) :
    SealContract W sodium message publicKeyB64 output outputWritten error
      ⟨stage.status, out, outputWritten.map fun _ => 0, setError error text, key, ciphertext⟩ := by
  have hst := sealStage_status_ne_ok stage
  refine ⟨by rw [hfirst]; rfl, fun _ => rfl, fun h => absurd h hst, fun h => absurd h hst,
    fun _ => setErrorBuffer_reported error htext, ?_, fun h => absurd h hst, ?_, hdisposed, ?_,
    hwiped⟩
  · intro stage' h
    obtain rfl : stage = stage' := by simpa [hfirst] using h
    exact hout
  · rw [hciphertext, hfirst]
    simp
  · rw [hkey, hfirst]
    simp

theorem release_key (munlock : ℤ) (locked : Bool) {key : Bytes}
    (h : key.length = cryptoBoxPublicKeyBytes) :
    (secureReleaseBlock munlock locked cryptoBoxPublicKeyBytes ⟨cryptoBoxPublicKeyBytes, key, []⟩).bytes =
      List.replicate cryptoBoxPublicKeyBytes 0 := by
  have hone : (Block.wipe cryptoBoxPublicKeyBytes ⟨cryptoBoxPublicKeyBytes, key, []⟩).bytes =
      List.replicate cryptoBoxPublicKeyBytes 0 := by rw [wipe_all h]
  unfold secureReleaseBlock
  split_ifs
  · rw [wipe_all (by rw [hone, List.length_replicate])]
  · exact hone

theorem release_ciphertext (munlock : ℤ) (locked : Bool) {ciphertext : Bytes} {n : ℕ}
    (h : ciphertext.length = n) (hn : 0 < n) :
    (secureReleaseBlock munlock locked n ⟨n, ciphertext, []⟩).free.size = n ∧
      (secureReleaseBlock munlock locked n ⟨n, ciphertext, []⟩).free.Disposed := by
  have hlive : Block.Live n ⟨n, ciphertext, []⟩ := ⟨rfl, h, hn, rfl⟩
  unfold secureReleaseBlock
  split_ifs
  · exact ⟨rfl, (disposed_of_live hlive).2⟩
  · exact ⟨rfl, (disposed_of_live hlive).1⟩

theorem decodeVariants_length (sodium : Sodium) (publicKeyB64 : Bytes) (vs : List Bool)
    (publicKey : Bytes) :
    (decodeVariants sodium publicKeyB64 vs publicKey).2.length = publicKey.length := by
  induction vs generalizing publicKey with
  | nil => simp [decodeVariants]
  | cons v vs ih =>
    simp only [decodeVariants]
    split_ifs
    · exact put_length _ _
    · rw [ih, put_length]

theorem decodedKey_length (W : SizeWidth) (sodium : Sodium) (publicKeyB64 : Bytes) :
    (decodedKey W sodium publicKeyB64).2.length = cryptoBoxPublicKeyBytes := by
  unfold decodedKey decodePublicKey
  split_ifs
  · exact fresh_length _ _
  · rw [decodeVariants_length, fresh_length]

theorem sealedBlock_length (sodium : Sodium) (message publicKey : Bytes) (content : ℕ → UInt8) :
    (sealedBlock sodium message publicKey content).length =
      message.length + cryptoBoxSealBytes := by
  rw [sealedBlock, put_length, fresh_length]

end Contract

/-- The first `n` stages pass. -/
def Passed (W : SizeWidth) (sodium : Sodium) (message publicKeyB64 output : Option Bytes)
    (n : ℕ) : Prop :=
  ∀ stage ∈ sealStages.take n, stage.fails W sodium message publicKeyB64 output = false

section Order
variable {W : SizeWidth} {sodium : Sodium} {message publicKeyB64 output : Option Bytes} {n : ℕ}
  {s : SealStage}

theorem passed_zero : Passed W sodium message publicKeyB64 output 0 := by
  simp [Passed]

theorem Passed.succ (h : Passed W sodium message publicKeyB64 output n)
    (hn : sealStages[n]? = some s)
    (hpass : s.fails W sodium message publicKeyB64 output = false) :
    Passed W sodium message publicKeyB64 output (n + 1) := by
  intro stage hs
  rw [List.take_add_one, hn] at hs
  rcases List.mem_append.1 hs with hs | hs
  · exact h stage hs
  · obtain rfl : stage = s := by simpa using hs
    exact hpass

theorem Passed.firstFailure_eq (h : Passed W sodium message publicKeyB64 output n)
    (hn : sealStages[n]? = some s)
    (hfail : s.fails W sodium message publicKeyB64 output = true) :
    firstFailure W sodium message publicKeyB64 output = some s := by
  have hlt : n < sealStages.length := (List.getElem?_eq_some_iff.1 hn).1
  have hget : sealStages[n] = s := (List.getElem?_eq_some_iff.1 hn).2
  rw [firstFailure, ← List.take_append_drop n sealStages, List.find?_append,
    List.find?_eq_none.2 fun stage hs => by simp [h stage hs], Option.none_or,
    List.drop_eq_getElem_cons hlt, hget, List.find?_cons_of_pos hfail]

theorem Passed.firstFailure_none (h : Passed W sodium message publicKeyB64 output 9) :
    firstFailure W sodium message publicKeyB64 output = none :=
  List.find?_eq_none.2 fun stage hs => by simp [h stage hs]

end Order

section Locked
variable {W : SizeWidth} {sodium : Sodium} {message publicKeyB64 output : Bytes}
  {outputWritten : Option ℕ} {error : Option Bytes}

theorem sealCiphertext_contract
    (hpass : Passed W sodium (some message) (some publicKeyB64) (some output) 6) :
    SealContract W sodium (some message) (some publicKeyB64) (some output) outputWritten error
      (sealCleanup sodium (message.length + cryptoBoxSealBytes)
        (sealCiphertext sodium message output (outputWritten.map fun _ => 0) error
          (decodedKey W sodium publicKeyB64).2)) := by
  have hkey := release_key sodium.munlockPublicKey (sodium.mlockPublicKey = 0)
    (decodedKey_length W sodium publicKeyB64)
  have hpos : 0 < message.length + cryptoBoxSealBytes := by
    rw [show cryptoBoxSealBytes = 48 from rfl]
    omega
  cases halloc : sodium.alloc with
  | none =>
    have hfirst := hpass.firstFailure_eq rfl (by simp [SealStage.fails, halloc])
    simp only [sealCiphertext, halloc, sealCleanup]
    exact .failed hfirst (by decide) (fun _ => rfl) rfl (by simp) rfl (by simpa using hkey)
  | some content =>
    have hblock := release_ciphertext sodium.munlockCiphertext (sodium.mlockCiphertext = 0)
      (sealedBlock_length sodium message (decodedKey W sodium publicKeyB64).2 content) hpos
    have hpass := hpass.succ (s := .allocation) rfl (by simp [SealStage.fails, halloc])
    have henc : encoded W sodium message publicKeyB64 output =
        (sodium.bin2base64 output.length
          (sealedBlock sodium message (decodedKey W sodium publicKeyB64).2 content)).2 := by
      rw [encoded, halloc, Option.bind_some]
    simp only [sealCiphertext, halloc, ← sealedBlock.eq_def]
    split_ifs with hseal
    · have hfirst := hpass.firstFailure_eq (s := .boxSeal) rfl
        (by simpa [SealStage.fails, boxSealFails] using hseal)
      exact .failed hfirst (by decide) (fun _ => rfl) rfl (by simpa using hblock) rfl
        (by simpa using hkey)
    · have hpass := hpass.succ (s := .boxSeal) rfl
        (by simpa [SealStage.fails, boxSealFails] using hseal)
      cases htext : encoded W sodium message publicKeyB64 output with
      | none =>
        have hfirst := hpass.firstFailure_eq (s := .encode) rfl
          (by simp [SealStage.fails, htext])
        rw [← henc, htext]
        exact .failed hfirst (by decide) (by simp) rfl (by simpa using hblock) rfl
          (by simpa using hkey)
      | some text =>
        have hnone := (hpass.succ (s := .encode) rfl
          (by simp [SealStage.fails, htext])).firstFailure_none
        rw [← henc, htext]
        exact ⟨by rw [hnone]; rfl, by simp [sealCleanup],
          fun _ => ⟨text, htext, by simp [sealCleanup, Function.comp_def]⟩,
          fun _ => rfl, by simp [sealCleanup], by simp [hnone], fun _ => ⟨content, halloc, rfl⟩,
          by simp [hnone, sealCleanup], by simpa [sealCleanup] using hblock, by simp [hnone, sealCleanup],
          by simpa [sealCleanup] using hkey⟩

theorem sealLocked_contract
    (hpass : Passed W sodium (some message) (some publicKeyB64) (some output) 4) :
    SealContract W sodium (some message) (some publicKeyB64) (some output) outputWritten error
      (sealCleanup sodium (message.length + cryptoBoxSealBytes)
        (sealLocked W sodium message publicKeyB64 output (outputWritten.map fun _ => 0) error)) := by
  have hkey := release_key sodium.munlockPublicKey (sodium.mlockPublicKey = 0)
    (decodedKey_length W sodium publicKeyB64)
  cases hdecode : (decodedKey W sodium publicKeyB64).1 with
  | false =>
    have hfirst := hpass.firstFailure_eq (s := .keyDecode) rfl
      (by simp [SealStage.fails, hdecode])
    have hrun (written : Option ℕ) : sealLocked W sodium message publicKeyB64 output written error =
        ⟨.errInput, some output, written,
          setError error (ascii "invalid public key encoding or length"),
          some ⟨cryptoBoxPublicKeyBytes, (decodedKey W sodium publicKeyB64).2, []⟩, none⟩ := if_pos hdecode
    rw [hrun]
    exact .failed hfirst (by decide) (fun _ => rfl) rfl (by simp) rfl (by simpa using hkey)
  | true =>
    have hpass := hpass.succ (s := .keyDecode) rfl (by simp [SealStage.fails, hdecode])
    have hrun (written : Option ℕ) : sealLocked W sodium message publicKeyB64 output written error =
        let v := saltValidateOutputCapacity W message.length output.length error
        if v.1 ≠ .ok then ⟨v.1, some output, written, v.2,
          some ⟨cryptoBoxPublicKeyBytes, (decodedKey W sodium publicKeyB64).2, []⟩, none⟩
        else sealCiphertext sodium message output written v.2 (decodedKey W sodium publicKeyB64).2 :=
      if_neg (by rw [← decodedKey, hdecode]; decide)
    by_cases hcap : saltRequiredBase64OutputLen W message.length = sizeMax W ∨
        output.length < saltRequiredBase64OutputLen W message.length
    · have hfirst := hpass.firstFailure_eq (s := .outputCapacity) rfl
        (by simpa [SealStage.fails] using hcap)
      have hval : saltValidateOutputCapacity W message.length output.length error =
          (.errInput, setError error (ascii "output buffer too small")) := if_pos hcap
      simp only [hrun, hval, ne_eq, reduceCtorEq, not_false_eq_true, if_true]
      exact .failed hfirst (by decide) (fun _ => rfl) rfl (by simp) rfl
        (by simpa using hkey)
    · have hval : saltValidateOutputCapacity W message.length output.length error = (.ok, error) :=
        if_neg hcap
      simp only [hrun, hval, ne_eq, not_true_eq_false, if_false]
      exact sealCiphertext_contract
        (hpass.succ (s := .outputCapacity) rfl (by simpa [SealStage.fails] using hcap))

end Locked

theorem sealContract (W : SizeWidth) (sodium : Sodium)
    (message publicKeyB64 output : Option Bytes) (outputWritten : Option ℕ)
    (error : Option Bytes) :
    SealContract W sodium message publicKeyB64 output outputWritten error
      (saltSealBase64Keylen W sodium message publicKeyB64 output outputWritten error) := by
  have hpass : Passed W sodium message publicKeyB64 output 0 := passed_zero
  unfold saltSealBase64Keylen
  by_cases hnull : message = none ∨ publicKeyB64 = none ∨ output = none
  · have hfirst := hpass.firstFailure_eq (s := .nullArguments) rfl
      (by simpa [SealStage.fails] using hnull)
    have hval : saltValidateSealInputs message publicKeyB64 output error =
        (.errInput, setError error (ascii "invalid null argument")) := by
      unfold saltValidateSealInputs
      rcases hnull with rfl | rfl | rfl
      · rfl
      · cases message <;> rfl
      · cases message <;> cases publicKeyB64 <;> rfl
    simp only [hval, ne_eq, reduceCtorEq, not_false_eq_true, if_true]
    exact .failed hfirst (by decide) (fun _ => rfl) rfl (by simp) rfl (by simp)
  have hpass := hpass.succ (s := .nullArguments) rfl (by simpa [SealStage.fails] using hnull)
  simp only [not_or, ← ne_eq, Option.ne_none_iff_exists'] at hnull
  obtain ⟨⟨message, rfl⟩, ⟨publicKeyB64, rfl⟩, ⟨output, rfl⟩⟩ := hnull
  by_cases hlen : message.length = 0 ∨ saltMaxMessageLen < message.length
  · have hfirst := hpass.firstFailure_eq (s := .messageLength) rfl
      (by simpa [SealStage.fails] using hlen)
    simp only [saltValidateSealInputs, if_pos hlen, ne_eq, reduceCtorEq, not_false_eq_true, if_true]
    exact .failed hfirst (by simp [ascii, cstr]) (fun _ => rfl) rfl (by simp) rfl (by simp)
  have hpass := hpass.succ (s := .messageLength) rfl (by simpa [SealStage.fails] using hlen)
  by_cases hempty : publicKeyB64.length = 0
  · have hfirst := hpass.firstFailure_eq (s := .emptyKey) rfl
      (by simpa [SealStage.fails] using hempty)
    simp only [saltValidateSealInputs, if_neg hlen, if_pos hempty, ne_eq, reduceCtorEq,
      not_false_eq_true, if_true]
    exact .failed hfirst (by decide) (fun _ => rfl) rfl (by simp) rfl (by simp)
  have hpass := hpass.succ (s := .emptyKey) rfl (by simpa [SealStage.fails] using hempty)
  simp only [saltValidateSealInputs, if_neg hlen, if_neg hempty, ne_eq, not_true_eq_false, if_false]
  by_cases hinit : sodium.init < 0
  · have hfirst := hpass.firstFailure_eq (s := .sodiumInit) rfl
      (by simpa [SealStage.fails] using hinit)
    rw [if_pos hinit]
    exact .failed hfirst (by decide) (fun _ => rfl) rfl (by simp) rfl (by simp)
  have hpass := hpass.succ (s := .sodiumInit) rfl (by simpa [SealStage.fails] using hinit)
  rw [if_neg hinit]
  exact sealLocked_contract hpass

/-- The fault contract of `salt_seal_base64_keylen`, for all arguments and all outcomes. -/
theorem saltSealBase64Keylen_faults (W : SizeWidth) (sodium : Sodium)
    (message publicKeyB64 output : Option Bytes) (outputWritten : Option ℕ)
    (error : Option Bytes) :
    let first := firstFailure W sodium message publicKeyB64 output
    let r := saltSealBase64Keylen W sodium message publicKeyB64 output outputWritten error
    r.status = first.elim .ok SealStage.status ∧
    (r.status ≠ .ok → r.outputWritten = outputWritten.map fun _ => 0) ∧
    (r.status = .ok → ∃ text,
      encoded W sodium (message.getD []) (publicKeyB64.getD []) (output.getD []) = some text ∧
        r.outputWritten = outputWritten.map fun _ => text.bytes.length) ∧
    (r.status = .ok → r.error = error) ∧
    (r.status ≠ .ok → Reported error r.error) ∧
    (∀ stage ∈ first, stage ≠ .encode → r.output = output) ∧
    (r.ciphertext.isSome ↔ ∀ stage ∈ first, stage.usesCiphertext = true) ∧
    (∀ b ∈ r.ciphertext,
      b.size = (message.getD []).length + cryptoBoxSealBytes ∧ b.Disposed) ∧
    (r.publicKey.isSome ↔ ∀ stage ∈ first, stage.usesKey = true) ∧
    ∀ b ∈ r.publicKey, b.bytes = List.replicate cryptoBoxPublicKeyBytes 0 := by
  intro first r
  have h := sealContract W sodium message publicKeyB64 output outputWritten error
  exact ⟨h.status, h.written_zero, h.written, h.error_kept, h.error_reported, h.output_kept,
    h.allocated, h.ciphertext_disposed, h.key_used, h.key_wiped⟩

end Salt.SealingContract
