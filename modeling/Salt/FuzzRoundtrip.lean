import Salt.Sealing
import Mathlib.Data.List.DropRight

set_option autoImplicit false

/-!
# The differential harness of the sealing library

`fuzz_roundtrip.c`, with the helpers of `fuzz_common.h` it calls. What the
harness builds out of the bytes it is given, what it expects of the library,
and where it stops the process.
-/
namespace Salt.FuzzRoundtrip
open ByteStrings Sealing

def roundtripMaxPlaintext : ℕ := saltGithubSecretMaxValueLen
def roundtripMaxCiphertext : ℕ := roundtripMaxPlaintext + cryptoBoxSealBytes
def roundtripMaxB64 (W : SizeWidth) : ℕ := sodiumBase64EncodedLen W roundtripMaxCiphertext
def roundtripErrBuf : ℕ := 512

def cryptoBoxSeedBytes : ℕ := 32

def publicKeyB64Size (W : SizeWidth) : ℕ := sodiumBase64EncodedLen W cryptoBoxPublicKeyBytes

structure FuzzEnv where
  width : SizeWidth
  sodium : Sodium
  /-- `crypto_box_seed_keypair`: its result, the public key and the secret key. -/
  cryptoBoxSeedKeypair : Bytes → ℤ × Bytes × Bytes
  cryptoBoxSealOpen : Bytes → Bytes → Bytes → Option Bytes
  /-- What earlier inputs left in the static buffers of the text and of the key. -/
  encryptedB64 : ℕ → UInt8
  keyVariant : CString

inductive Outcome where
  | finished
  | aborted (report : Bytes)
deriving DecidableEq

def fuzzSeedKeypair (env : FuzzEnv) (seedFill : UInt8) : ℤ × Bytes × Bytes :=
  env.cryptoBoxSeedKeypair (List.replicate cryptoBoxSeedBytes seedFill)

def roundtripInit (env : FuzzEnv) : Option (Bytes × Bytes × CString) :=
  if env.sodium.init < 0 then none
  else
    let (rc, publicKey, secretKey) := fuzzSeedKeypair env 0x45
    if rc ≠ 0 then none
    else
      (env.sodium.bin2base64 (publicKeyB64Size env.width) publicKey).2.map fun text =>
        (publicKey, secretKey, text)

def roundtripFillBytes (dstLen : ℕ) (seed : Bytes) : Bytes :=
  if seed = [] then List.replicate dstLen 65
  else (List.range dstLen).map fun i => seed.getD (i % seed.length) 0

def presets : List ℕ := [0, 1, 2, 3, 15, 16, 31, 32, 63, 64, 255, 256, 1023, 1024, 4095, 4096, 8192,
  16384, roundtripMaxPlaintext - 1, roundtripMaxPlaintext]

def roundtripSelectPlaintextLen (mode : UInt8) (seed : Bytes) : ℕ :=
  match mode.toNat % 4 with
  | 0 => if seed.length ≤ roundtripMaxPlaintext then seed.length else roundtripMaxPlaintext
  | 1 =>
    if seed.length = 0 then presets.getD 0 0
    else presets.getD ((seed.getD 0 0).toNat % presets.length) 0
  | 2 => ((seed.getD 0 0).toNat ||| (seed.getD 1 0).toNat <<< 8) % (roundtripMaxPlaintext + 1)
  | _ => roundtripMaxPlaintext

/-- Whether the variant is to be accepted, and the variant; `old` is what a branch leaves alone. -/
def roundtripBuildKeyVariant (mode : UInt8) (base old : CString) (dstSize : ℕ) : Bool × CString :=
  let baseLen := base.bytes.length
  match mode.toNat % 6 with
  | 0 => if dstSize ≤ baseLen then (false, old) else (true, base)
  | 1 =>
    let trimmed := base.bytes.rdropWhile (· = 61)
    if trimmed = [] ∨ dstSize ≤ trimmed.length then (false, old)
    else (true, CString.ofBuffer trimmed)
  | 2 => (false, CString.ofBuffer [])
  | 3 =>
    if baseLen < 5 then (false, CString.ofBuffer [])
    else if dstSize ≤ baseLen - 4 then (false, old)
    else (false, CString.ofBuffer (base.bytes.take (baseLen - 4)))
  | 4 =>
    if dstSize < baseLen + 2 then (false, old)
    else (false, CString.ofBuffer (base.bytes ++ ascii "!"))
  | _ =>
    if dstSize < baseLen + 3 then (false, old)
    else (false, CString.ofBuffer (ascii " " ++ base.bytes ++ ascii "\n"))

def roundtripSelectOutputSize (W : SizeWidth) (mode : UInt8) (required : ℕ) : ℕ :=
  match mode.toNat % 4 with
  | 0 => required
  | 1 => roundtripMaxB64 W
  | 2 => if 1 < required then required - 1 else 1
  | _ => 8

def roundtripFlipBase64Char (ch : UInt8) : UInt8 := if ch ≠ 65 ∧ ch ≠ 61 then 65 else 66

def flipFirst : Bytes → Bytes
  | [] => []
  | ch :: rest => if ch ≠ 61 then roundtripFlipBase64Char ch :: rest else ch :: flipFirst rest

/-- The variant of a text, or none where its buffer is too small. -/
def roundtripBuildCiphertextVariant (mode : UInt8) (dstSize : ℕ) (src : Bytes) : Option Bytes :=
  if dstSize < src.length + 2 then none
  else
    match mode.toNat % 4 with
    | 0 => some src
    | 1 => some (if 1 < src.length then src.dropLast else src)
    | 2 => some (src ++ ascii "!")
    | _ => some (flipFirst src)

/-- `sodium_base642bin` without an end pointer fails where the text is not read to its end. -/
def decodeWhole (sodium : Sodium) (maxLen : ℕ) (b64 : Bytes) : Option Bytes :=
  let r := sodium.base642bin true maxLen b64
  if r.ret = 0 ∧ r.stop = some b64.length then some (r.bin.take r.binLen) else none

def roundtripVerifySuccess (env : FuzzEnv) (publicKey secretKey ciphertextB64 plaintext : Bytes) :
    Outcome :=
  match decodeWhole env.sodium roundtripMaxCiphertext ciphertextB64 with
  | none => .aborted (ascii "roundtrip: salt produced invalid base64\n")
  | some ciphertext =>
    if ciphertext.length ≠ plaintext.length + cryptoBoxSealBytes then
      .aborted (ascii "roundtrip: ciphertext length mismatch: got " ++ decimal ciphertext.length ++
        ascii " expected " ++ decimal (plaintext.length + cryptoBoxSealBytes) ++ ascii "\n")
    else
      match env.cryptoBoxSealOpen ciphertext publicKey secretKey with
      | none => .aborted (ascii "roundtrip: decrypt failed\n")
      | some decrypted =>
        if decrypted.take plaintext.length ≠ plaintext then
          .aborted (ascii "roundtrip: decrypted plaintext differs from input\n")
        else .finished

def roundtripVerifyNegativeVariant (env : FuzzEnv) (publicKey secretKey : Bytes) (mode : UInt8)
    (ciphertextB64 : Bytes) (plaintextLen : ℕ) : Outcome :=
  match decodeWhole env.sodium roundtripMaxCiphertext ciphertextB64 with
  | none => .finished
  | some ciphertext =>
    if mode.toNat % 4 = 2 then
      .aborted (ascii "roundtrip: trailing-junk variant unexpectedly decoded\n")
    else if ciphertext.length ≠ plaintextLen + cryptoBoxSealBytes then .finished
    else
      match env.cryptoBoxSealOpen ciphertext publicKey secretKey with
      | none => .finished
      | some _ => .aborted (ascii "roundtrip: corrupted ciphertext variant decrypted unexpectedly\n")

structure RoundtripCase where
  keyMode : UInt8
  outputMode : UInt8
  ciphertextMode : UInt8
  plaintextMode : UInt8
  payload : Bytes
  plaintextLen : ℕ
  requiredOutput : ℕ
  outputSize : ℕ

def roundtripParseCase (W : SizeWidth) (data : Bytes) : RoundtripCase :=
  let payload := data.drop 3
  let plaintextMode := data.getD 2 0 >>> 2
  let plaintextLen := roundtripSelectPlaintextLen plaintextMode payload
  let requiredOutput := saltRequiredBase64OutputLen W plaintextLen
  { keyMode := data.getD 0 0
    outputMode := data.getD 1 0
    ciphertextMode := data.getD 2 0
    plaintextMode := plaintextMode
    payload := payload
    plaintextLen := plaintextLen
    requiredOutput := requiredOutput
    outputSize := roundtripSelectOutputSize W (data.getD 1 0) requiredOutput }

/-- The values of the enumeration of `salt.h`. -/
def statusCode : SaltStatus → ℕ
  | .ok => 0
  | .errInput => 1
  | .errCrypto => 2
  | .errInternal => 3
  | .errIo => 4
  | .errSignal => 5

def errorText (r : SealResult) : Bytes := cstr (r.error.getD [])

def roundtripAssertExpectedFailure (r : SealResult) : Outcome :=
  if r.status ≠ .errInput then
    .aborted (ascii "roundtrip: expected input failure, got rc=" ++ decimal (statusCode r.status) ++
      ascii " (" ++ errorText r ++ ascii ")\n")
  else .finished

def roundtripAssertExpectedSuccess (env : FuzzEnv) (publicKey secretKey : Bytes) (tc : RoundtripCase)
    (r : SealResult) (plaintext : Bytes) : Outcome :=
  let encryptedLen := r.outputWritten.getD 0
  if r.status ≠ .ok then
    .aborted (ascii "roundtrip: seal failed unexpectedly: " ++ errorText r ++ ascii "\n")
  else if encryptedLen = 0 ∨ tc.outputSize ≤ encryptedLen ∨ roundtripMaxB64 env.width ≤ encryptedLen
  then
    .aborted (ascii "roundtrip: implausible encrypted length " ++ decimal encryptedLen ++ ascii "\n")
  else
    match roundtripBuildCiphertextVariant tc.ciphertextMode (roundtripMaxB64 env.width + 2)
      ((r.output.getD []).take encryptedLen) with
    | none => .aborted []
    | some variant =>
      if tc.ciphertextMode.toNat % 4 = 0 then
        roundtripVerifySuccess env publicKey secretKey variant plaintext
      else
        roundtripVerifyNegativeVariant env publicKey secretKey tc.ciphertextMode variant
          tc.plaintextLen

/-- The call of the library on a test case. The text buffer starts with a terminator. -/
def sealCase (env : FuzzEnv) (tc : RoundtripCase) (key : CString) : SealResult :=
  saltSealBase64 env.width env.sodium
    (some (roundtripFillBytes tc.plaintextLen tc.payload)) (some key)
    (some ((fresh env.encryptedB64 tc.outputSize).set 0 0)) (some 0)
    (some (List.replicate roundtripErrBuf 0))

def expectSuccess (tc : RoundtripCase) (keyValid : Bool) : Bool :=
  decide (0 < tc.plaintextLen) && keyValid && decide (tc.requiredOutput ≠ 0) &&
    decide (tc.requiredOutput ≤ tc.outputSize)

def fuzzOneInput (env : FuzzEnv) (data : Bytes) : Outcome :=
  match roundtripInit env with
  | none => .finished
  | some (publicKey, secretKey, publicKeyB64) =>
    let tc := roundtripParseCase env.width data
    let key := roundtripBuildKeyVariant tc.keyMode publicKeyB64 env.keyVariant
      (publicKeyB64Size env.width + 4)
    let r := sealCase env tc key.2
    if expectSuccess tc key.1 then
      roundtripAssertExpectedSuccess env publicKey secretKey tc r
        (roundtripFillBytes tc.plaintextLen tc.payload)
    else roundtripAssertExpectedFailure r

end Salt.FuzzRoundtrip
