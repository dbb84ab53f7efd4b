import Salt.Basics
import Salt.Base64Text
import Salt.BlockHeap
import Salt.WrappingArithmetic

set_option autoImplicit false

/-!
# The sealing library

`salt_seal_base64_keylen` and the functions around it. A buffer argument and
its size are one list; a null pointer is `none`. libsodium and the allocator
are a parameter: what each call returns, and the bytes it writes, which never
pass the end of the buffer they are written to.
-/
namespace Salt.Sealing
open ByteStrings BlockHeap WrappingArithmetic

/-- The outcome of `sodium_base642bin`; `stop` is the offset of the end pointer. -/
structure DecodeOutcome where
  ret : ℤ
  bin : Bytes
  binLen : ℕ
  stop : Option ℕ

/-- libsodium, the allocator and the uninitialised stack, as one call of the library sees them. -/
structure Sodium where
  init : ℤ
  mlockPublicKey : ℤ
  mlockCiphertext : ℤ
  munlockPublicKey : ℤ
  munlockCiphertext : ℤ
  /-- The contents of a fresh block, unless the allocation fails. -/
  alloc : Option (ℕ → UInt8)
  scratch : ℕ → UInt8
  /-- The result on a message and a public key, with the ciphertext written. -/
  cryptoBoxSeal : Bytes → Bytes → ℤ × Bytes
  base642bin : Bool → ℕ → Bytes → DecodeOutcome
  /-- The bytes written for a capacity and an input, and the string at the result pointer. -/
  bin2base64 : ℕ → Bytes → Bytes × Option CString

def fresh (content : ℕ → UInt8) (n : ℕ) : Bytes := (List.range n).map content

/-- What is in a buffer after a callee has written to its start. -/
def put (buffer data : Bytes) : Bytes := overwrite buffer (data.take buffer.length)

theorem fresh_length (content : ℕ → UInt8) (n : ℕ) : (fresh content n).length = n := by
  simp [fresh]

theorem put_length (buffer data : Bytes) : (put buffer data).length = buffer.length :=
  overwrite_length (List.length_take_le _ _)

def setError (error : Option Bytes) (text : Bytes) : Option Bytes := setErrorBuffer error text

def saltBoundedStrlen (value : Option CString) (maxLen : ℕ) : ℕ :=
  match value with
  | none => 0
  | some value => min value.bytes.length maxLen

def saltValidateSealInputs (message publicKeyB64 output error : Option Bytes) :
    SaltStatus × Option Bytes :=
  match message, publicKeyB64, output with
  | some message, some publicKeyB64, some _ =>
    if message.length = 0 ∨ saltMaxMessageLen < message.length then
      (.errInput, setError error (ascii "plaintext length must be between 1 and " ++
        decimal saltMaxMessageLen ++ ascii " bytes"))
    else if publicKeyB64.length = 0 then
      (.errInput, setError error (ascii "public key must not be empty"))
    else (.ok, error)
  | _, _, _ => (.errInput, setError error (ascii "invalid null argument"))

/-- `sodium_base64_ENCODED_LEN` for the padded variant, with its operations in `size_t`. -/
def encodedLen (W : SizeWidth) (n : ℕ) : Computed ℕ := do
  let quads ← mul W.modulus (n / 3) 4
  let threes ← mul W.modulus (n / 3) 3
  let rest ← sub W.modulus n threes
  let rounding ← mul W.modulus ((rest ||| rest >>> 1) &&& 1) 4
  let len ← add W.modulus quads rounding
  add W.modulus len 1

def sodiumBase64EncodedLen (W : SizeWidth) (n : ℕ) : ℕ := (encodedLen W n).value

/-- `salt_required_base64_output_len`, with its operations in `size_t`. -/
def requiredOutputLen (W : SizeWidth) (messageLen : ℕ) : Computed ℕ := do
  let maxLen ← sub W.modulus (sizeMax W) cryptoBoxSealBytes
  if maxLen < messageLen then pure (sizeMax W)
  else
    let sealedLen ← add W.modulus messageLen cryptoBoxSealBytes
    let maxEncoded ← sub W.modulus (sizeMax W) 1
    let maxSealed ← mul W.modulus (maxEncoded / 4) 3
    if maxSealed < sealedLen then pure (sizeMax W)
    else encodedLen W sealedLen

def saltRequiredBase64OutputLen (W : SizeWidth) (messageLen : ℕ) : ℕ :=
  (requiredOutputLen W messageLen).value

def saltValidateOutputCapacity (W : SizeWidth) (messageLen outputSize : ℕ)
    (error : Option Bytes) : SaltStatus × Option Bytes :=
  let required := saltRequiredBase64OutputLen W messageLen
  if required = sizeMax W ∨ outputSize < required then
    (.errInput, setError error (ascii "output buffer too small"))
  else (.ok, error)

def maxPublicKeyB64Len (W : SizeWidth) : ℕ := sodiumBase64EncodedLen W cryptoBoxPublicKeyBytes - 1

def variants : List Bool := [true, false]

def decodeVariants (sodium : Sodium) (publicKeyB64 : Bytes) : List Bool → Bytes → Bool × Bytes
  | [], publicKey => (false, List.replicate publicKey.length 0)
  | variant :: rest, publicKey =>
    let r := sodium.base642bin variant cryptoBoxPublicKeyBytes publicKeyB64
    let publicKey := put publicKey r.bin
    if r.ret = 0 ∧ r.binLen = cryptoBoxPublicKeyBytes ∧ r.stop = some publicKeyB64.length then
      (true, publicKey)
    else decodeVariants sodium publicKeyB64 rest publicKey

def decodePublicKey (W : SizeWidth) (sodium : Sodium) (publicKeyB64 publicKey : Bytes) :
    Bool × Bytes :=
  if publicKeyB64.length = 0 ∨ maxPublicKeyB64Len W < publicKeyB64.length then (false, publicKey)
  else decodeVariants sodium publicKeyB64 variants publicKey

/-- `sodium_munlock` wipes, and a failed one is followed by `sodium_memzero`. -/
def secureReleaseBlock (munlock : ℤ) (locked : Bool) (len : ℕ) (b : Block) : Block :=
  if locked = true ∧ munlock ≠ 0 then (b.wipe len).wipe len else b.wipe len

structure SealResult where
  status : SaltStatus
  output : Option Bytes
  outputWritten : Option ℕ
  error : Option Bytes
  /-- The key scratch on the stack, once it has been used. -/
  publicKey : Option Block
  /-- The ciphertext block, once it has been allocated. -/
  ciphertext : Option Block

def sealCiphertext (sodium : Sodium) (message output : Bytes) (outputWritten : Option ℕ)
    (error : Option Bytes) (publicKey : Bytes) : SealResult :=
  let key : Option Block := some ⟨cryptoBoxPublicKeyBytes, publicKey, []⟩
  let ciphertextLen := message.length + cryptoBoxSealBytes
  match sodium.alloc with
  | none => ⟨.errInternal, some output, outputWritten,
      setError error (ascii "failed to allocate ciphertext buffer"), key, none⟩
  | some content =>
    let r := sodium.cryptoBoxSeal message publicKey
    let ciphertext := put (fresh content ciphertextLen) r.2
    if r.1 ≠ 0 then
      ⟨.errCrypto, some output, outputWritten,
        setError error (ascii "failed to encrypt sealed box"), key, some ⟨ciphertextLen, ciphertext, []⟩⟩
    else
      let e := sodium.bin2base64 output.length ciphertext
      let output := put output e.1
      match e.2 with
      | none => ⟨.errInternal, some output, outputWritten,
          setError error (ascii "failed to encode ciphertext"), key, some ⟨ciphertextLen, ciphertext, []⟩⟩
      | some encoded => ⟨.ok, some output, outputWritten.map fun _ => encoded.bytes.length,
          error, key, some ⟨ciphertextLen, ciphertext, []⟩⟩

def sealLocked (W : SizeWidth) (sodium : Sodium) (message publicKeyB64 output : Bytes)
    (outputWritten : Option ℕ) (error : Option Bytes) : SealResult :=
  let d := decodePublicKey W sodium publicKeyB64 (fresh sodium.scratch cryptoBoxPublicKeyBytes)
  if d.1 = false then
    ⟨.errInput, some output, outputWritten,
      setError error (ascii "invalid public key encoding or length"),
      some ⟨cryptoBoxPublicKeyBytes, d.2, []⟩, none⟩
  else
    let v := saltValidateOutputCapacity W message.length output.length error
    if v.1 ≠ .ok then
      ⟨v.1, some output, outputWritten, v.2, some ⟨cryptoBoxPublicKeyBytes, d.2, []⟩, none⟩
    else sealCiphertext sodium message output outputWritten v.2 d.2

def sealCleanup (sodium : Sodium) (ciphertextLen : ℕ) (r : SealResult) : SealResult :=
  { r with
    publicKey := r.publicKey.map
      (secureReleaseBlock sodium.munlockPublicKey (sodium.mlockPublicKey = 0)
        cryptoBoxPublicKeyBytes)
    ciphertext := r.ciphertext.map fun b =>
      (secureReleaseBlock sodium.munlockCiphertext (sodium.mlockCiphertext = 0)
        ciphertextLen b).free }

def saltSealBase64Keylen (W : SizeWidth) (sodium : Sodium)
    (message publicKeyB64 output : Option Bytes) (outputWritten : Option ℕ)
    (error : Option Bytes) : SealResult :=
  let outputWritten := outputWritten.map fun _ => 0
  let v := saltValidateSealInputs message publicKeyB64 output error
  if v.1 ≠ .ok then ⟨v.1, output, outputWritten, v.2, none, none⟩
  else if sodium.init < 0 then
    ⟨.errCrypto, output, outputWritten, setError v.2 (ascii "failed to initialize libsodium"),
      none, none⟩
  else
    match message, publicKeyB64, output with
    | some message, some publicKeyB64, some output =>
      sealCleanup sodium (message.length + cryptoBoxSealBytes)
        (sealLocked W sodium message publicKeyB64 output outputWritten v.2)
    | _, _, _ => ⟨v.1, output, outputWritten, v.2, none, none⟩

def saltSealBase64 (W : SizeWidth) (sodium : Sodium) (message : Option Bytes)
    (publicKeyB64 : Option CString) (output : Option Bytes) (outputWritten : Option ℕ)
    (error : Option Bytes) : SealResult :=
  let publicKeyB64Len := saltBoundedStrlen publicKeyB64 (maxPublicKeyB64Len W + 1)
  saltSealBase64Keylen W sodium message (publicKeyB64.map fun s => s.bytes.take publicKeyB64Len)
    output outputWritten error

structure EntryResult where
  result : SealResult
  message : Option Bytes

def zeroPlaintext (message : Bytes) : Bytes :=
  if 0 < message.length ∧ message.length ≤ saltMaxMessageLen then
    List.replicate message.length 0
  else message

def saltSealBase64WithPlaintextZeroingKeylen (W : SizeWidth) (sodium : Sodium)
    (message publicKeyB64 output : Option Bytes) (outputWritten : Option ℕ)
    (error : Option Bytes) : EntryResult :=
  let outputWritten := outputWritten.map fun _ => 0
  match message with
  | none => ⟨⟨.errInput, output, outputWritten, setError error (ascii "invalid null argument"),
      none, none⟩, none⟩
  | some message =>
    ⟨saltSealBase64Keylen W sodium (some message) publicKeyB64 output outputWritten error,
      some (zeroPlaintext message)⟩

def saltSealBase64WithPlaintextZeroing (W : SizeWidth) (sodium : Sodium)
    (message : Option Bytes) (publicKeyB64 : Option CString) (output : Option Bytes)
    (outputWritten : Option ℕ) (error : Option Bytes) : EntryResult :=
  let publicKeyB64Len := saltBoundedStrlen publicKeyB64 (maxPublicKeyB64Len W + 1)
  saltSealBase64WithPlaintextZeroingKeylen W sodium message
    (publicKeyB64.map fun s => s.bytes.take publicKeyB64Len) output outputWritten error

end Salt.Sealing
