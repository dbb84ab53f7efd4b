import Salt.World

set_option autoImplicit false

/-!
# The helper that checks a round trip

`verify-roundtrip-helper.c`: a key pair printed as text, and the decryption of
a sealed box given as text. libsodium and the allocator are a parameter, and
the two output streams take or refuse each write.
-/
namespace Salt.RoundtripHelper
open ByteStrings BlockHeap TracedState Sealing

structure HelperEnv where
  sodium : Sodium
  /-- `crypto_box_keypair`: its result, the public key and the secret key. -/
  keypair : ℤ × Bytes × Bytes
  /-- `crypto_box_seal_open` on a ciphertext, a public key and a secret key. -/
  cryptoBoxSealOpen : Bytes → Bytes → Bytes → Option Bytes
  /-- The contents of the blocks, by the number of the allocation. -/
  malloc : ℕ → Option (ℕ → UInt8)
  scratch : ℕ → UInt8

/-- The streams, and the memory that holds a secret: two buffers on the stack and two blocks. -/
structure Process where
  stdout : OutStream
  stderr : OutStream
  secretKey : Block
  secretKeyB64 : Block
  ciphertext : Option Block
  plaintext : Option Block

abbrev Helper := Traced Process

def cryptoBoxSecretKeyBytes : ℕ := 32

def keyTextSize : ℕ := 45

def programPrefix : Bytes := ascii "verify-roundtrip-helper: "

/-- `fprintf(stderr, ...)`; its result is not looked at. -/
def complain (text : Bytes) : Helper ℤ := Traced.step fun p =>
  (1, { p with stderr := (p.stderr.write (programPrefix ++ text ++ ascii "\n")).2 })

def writeStdout (data : Bytes) : Helper Bool := Traced.step fun p =>
  ((p.stdout.write data).1, { p with stdout := (p.stdout.write data).2 })

def editSecretKey (f : Block → Block) : Helper Unit := Traced.update fun p =>
  { p with secretKey := f p.secretKey }

def editSecretKeyB64 (f : Block → Block) : Helper Unit := Traced.update fun p =>
  { p with secretKeyB64 := f p.secretKeyB64 }

def editCiphertext (f : Block → Block) : Helper Unit := Traced.update fun p =>
  { p with ciphertext := p.ciphertext.map f }

def editPlaintext (f : Block → Block) : Helper Unit := Traced.update fun p =>
  { p with plaintext := p.plaintext.map f }

def bytesOf (b : Option Block) : Bytes := b.elim [] Block.bytes

/-- A callee writes to the start of a buffer it is told the size of. -/
def fill (size : ℕ) (data : Bytes) : Block → Block := Block.edit fun bytes =>
  overwrite bytes (data.take size)

/-- The process as a command finds it: what is in the buffers is left over. -/
def startProcess (scratch : ℕ → UInt8) (stdout stderr : OutStream) : Process where
  stdout := stdout
  stderr := stderr
  secretKey := ⟨cryptoBoxSecretKeyBytes, fresh scratch cryptoBoxSecretKeyBytes, []⟩
  secretKeyB64 := ⟨keyTextSize, fresh scratch keyTextSize, []⟩
  ciphertext := none
  plaintext := none

def printKeys (publicKeyB64 secretKeyB64 : Bytes) : Helper Bool := do
  let first ← writeStdout publicKeyB64
  if !first then return false
  else
    let second ← writeStdout (ascii "\n")
    if !second then return false
    else
      let third ← writeStdout secretKeyB64
      if !third then return false else writeStdout (ascii "\n")

def encodeKeys (env : HelperEnv) (publicKey : Bytes) : Helper ℤ := do
  let r := env.sodium.bin2base64 keyTextSize publicKey
  if r.2.isNone then complain (ascii "public key encoding failed")
  else
    let secretKey ← Traced.read fun p => p.secretKey.bytes
    let q := env.sodium.bin2base64 keyTextSize secretKey
    editSecretKeyB64 (fill keyTextSize q.1)
    if q.2.isNone then complain (ascii "secret key encoding failed")
    else
      let secretKeyB64 ← Traced.read fun p => cstr p.secretKeyB64.bytes
      let written ← printKeys (cstr (put (fresh env.scratch keyTextSize) r.1)) secretKeyB64
      if !written then complain (ascii "failed to write key output") else return 0

def commandKeygen (env : HelperEnv) : Helper ℤ := do
  editSecretKey (fill cryptoBoxSecretKeyBytes env.keypair.2.2)
  if env.keypair.1 ≠ 0 then complain (ascii "crypto_box_keypair failed")
  else
    let rc ← encodeKeys env (put (fresh env.scratch cryptoBoxPublicKeyBytes) env.keypair.2.1)
    editSecretKeyB64 (Block.wipe keyTextSize)
    editSecretKey (Block.wipe cryptoBoxSecretKeyBytes)
    return rc

structure DecryptArgs where
  publicKeyB64 : Option CString
  secretKeyB64 : Option CString
  ciphertextB64 : Option CString

/-- The loop over pairs of arguments; the last value of each option stays. -/
def decryptArgs : List CString → DecryptArgs → Except Bytes DecryptArgs
  | [], o => .ok o
  | [name], _ => .error (ascii "missing value for " ++ name.bytes)
  | name :: value :: rest, o =>
    if name.bytes = ascii "--public-key" then decryptArgs rest { o with publicKeyB64 := some value }
    else if name.bytes = ascii "--secret-key" then
      decryptArgs rest { o with secretKeyB64 := some value }
    else if name.bytes = ascii "--ciphertext" then
      decryptArgs rest { o with ciphertextB64 := some value }
    else .error (ascii "unknown option: " ++ name.bytes)

/-- What `decode_exact_base64` finds wrong with what `sodium_base642bin` did. -/
def decodeFault (label : Bytes) (r : DecodeOutcome) (inputLen outLen : ℕ) : Option Bytes :=
  if r.ret ≠ 0 then some (ascii "invalid " ++ label ++ ascii " base64")
  else if r.stop ≠ some inputLen then some (ascii "trailing characters in " ++ label)
  else if r.binLen ≠ outLen then some (ascii "invalid " ++ label ++ ascii " length")
  else none

def reportDecoded (label : Bytes) (r : DecodeOutcome) (inputLen outLen : ℕ) : Helper ℤ :=
  match decodeFault label r inputLen outLen with
  | some text => complain text
  | none => return 0

def openCiphertext (env : HelperEnv) (publicKey : Bytes) (ciphertextB64 : CString) : Helper ℤ := do
  let maxLen := ciphertextB64.bytes.length
  if maxLen < cryptoBoxSealBytes then complain (ascii "ciphertext too short")
  else
    match env.malloc 0 with
    | none => complain (ascii "ciphertext allocation failed")
    | some content => do
      Traced.update fun p =>
        { p with ciphertext := some ⟨maxLen + 1, fresh content (maxLen + 1), []⟩ }
      let r := env.sodium.base642bin true maxLen ciphertextB64.bytes
      editCiphertext (fill maxLen r.bin)
      if r.ret ≠ 0 then complain (ascii "invalid ciphertext base64")
      else if r.stop ≠ some maxLen then complain (ascii "trailing characters in ciphertext")
      else if r.binLen < cryptoBoxSealBytes then complain (ascii "ciphertext too short")
      else
        let plaintextLen := r.binLen - cryptoBoxSealBytes
        match env.malloc 1 with
        | none => complain (ascii "plaintext allocation failed")
        | some content => do
          let size := if plaintextLen = 0 then 1 else plaintextLen
          Traced.update fun p => { p with plaintext := some ⟨size, fresh content size, []⟩ }
          let ciphertext ← Traced.read fun p => (bytesOf p.ciphertext).take r.binLen
          let secretKey ← Traced.read fun p => p.secretKey.bytes
          match env.cryptoBoxSealOpen ciphertext publicKey secretKey with
          | none => complain (ascii "decryption failed")
          | some message => do
            editPlaintext (fill plaintextLen message)
            if plaintextLen = 0 then return 0
            else
              let plaintext ← Traced.read fun p => (bytesOf p.plaintext).take plaintextLen
              let written ← writeStdout plaintext
              if !written then complain (ascii "failed to write plaintext") else return 0

def decryptBody (env : HelperEnv) (args : List CString) : Helper ℤ :=
  match decryptArgs args ⟨none, none, none⟩ with
  | .error text => complain text
  | .ok ⟨some publicKeyB64, some secretKeyB64, some ciphertextB64⟩ => do
    let r := env.sodium.base642bin true cryptoBoxPublicKeyBytes publicKeyB64.bytes
    let rc ← reportDecoded (ascii "public key") r publicKeyB64.bytes.length cryptoBoxPublicKeyBytes
    if rc ≠ 0 then return 1
    else
      let q := env.sodium.base642bin true cryptoBoxSecretKeyBytes secretKeyB64.bytes
      editSecretKey (fill cryptoBoxSecretKeyBytes q.bin)
      let rc ← reportDecoded (ascii "secret key") q secretKeyB64.bytes.length cryptoBoxSecretKeyBytes
      if rc ≠ 0 then return 1
      else openCiphertext env (put (fresh env.scratch cryptoBoxPublicKeyBytes) r.bin) ciphertextB64
  | .ok _ => complain
      (ascii "decrypt requires --public-key, --secret-key, and --ciphertext")

def decryptCleanup : Helper Unit := do
  editSecretKey (Block.wipe cryptoBoxSecretKeyBytes)
  editPlaintext fun b => (b.wipe b.size).free
  editCiphertext fun b => (b.wipe (b.size - 1)).free

def commandDecrypt (env : HelperEnv) (args : List CString) : Helper ℤ := do
  let rc ← decryptBody env args
  decryptCleanup
  return rc

def helperUsage : Bytes :=
  ascii "usage:\n" ++
  ascii "  verify-roundtrip-helper keygen\n" ++
  ascii "  verify-roundtrip-helper decrypt --public-key PUB_B64 --secret-key SEC_B64 --ciphertext CIPHERTEXT_B64\n"

def main (env : HelperEnv) (args : List CString) : Helper ℤ :=
  if env.sodium.init < 0 then complain (ascii "sodium_init failed")
  else
    match args with
    | [command] => if command.bytes = ascii "keygen" then commandKeygen env else usage
    | command :: rest => if command.bytes = ascii "decrypt" then commandDecrypt env rest else usage
    | [] => usage
where
  usage : Helper ℤ := Traced.step fun p =>
    (2, { p with stderr := (p.stderr.write helperUsage).2 })

end Salt.RoundtripHelper
