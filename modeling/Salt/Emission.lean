import Salt.Reporting

set_option autoImplicit false

/-!
# Output serialization

`output.c`. The writer of a JSON string goes through the value byte by byte;
`is_valid_utf8_sequence` keeps the branches of the source.
-/
namespace Salt
open ByteStrings TracedState

def writeFailure : Bytes := ascii "failed to write encrypted output"

def cliStreamWriteError (message : Bytes) : Cli SaltStatus := do
  modifyState fun s => { s with error := vsnprintf s.error message }
  return .errIo

/-- `cli_stream_putc`, `cli_stream_puts` and `cli_stream_printf`, on the bytes they print. -/
def cliStreamWrite (data : Bytes) : Cli SaltStatus := do
  let ok ← vfprintf .out data
  if !ok then cliStreamWriteError writeFailure else return .ok

def cliStreamPutc (ch : UInt8) : Cli SaltStatus := cliStreamWrite [ch]
def cliStreamPuts (value : Bytes) : Cli SaltStatus := cliStreamWrite value

def hexDigit (n : ℕ) : UInt8 := UInt8.ofNat (if n < 10 then 48 + n else 87 + n)

def unicodeEscape (c : UInt8) : Bytes :=
  [92, 117, 48, 48, hexDigit (c.toNat / 16), hexDigit (c.toNat % 16)]

def cliStreamFlush : Cli SaltStatus := do
  let ok ← fflush .out
  let failed ← ferror .out
  if !ok || failed then cliStreamWriteError writeFailure else return .ok

def isValidUtf8Sequence (s : Bytes) : Option ℕ :=
  match s with
  | [] => none
  | b :: rest =>
    if b ≤ 0x7F then some 1
    else if b ≥ 0xC2 ∧ b ≤ 0xDF then
      match rest with
      | b2 :: _ => if b2 < 0x80 ∨ b2 > 0xBF then none else some 2
      | _ => none
    else if b ≥ 0xE0 ∧ b ≤ 0xEF then
      match rest with
      | b2 :: b3 :: _ =>
        if b2 < 0x80 ∨ b3 < 0x80 ∨ b2 > 0xBF ∨ b3 > 0xBF then none
        else if b = 0xE0 ∧ (b2 < 0xA0 ∨ b2 > 0xBF) then none
        else if b = 0xED ∧ (b2 < 0x80 ∨ b2 > 0x9F) then none
        else if b ≠ 0xE0 ∧ b ≠ 0xED ∧ (b2 < 0x80 ∨ b2 > 0xBF) then none
        else some 3
      | _ => none
    else if b ≥ 0xF0 ∧ b ≤ 0xF4 then
      match rest with
      | b2 :: b3 :: b4 :: _ =>
        if b2 < 0x80 ∨ b3 < 0x80 ∨ b4 < 0x80 ∨ b2 > 0xBF ∨ b3 > 0xBF ∨ b4 > 0xBF then none
        else if b = 0xF0 ∧ (b2 < 0x90 ∨ b2 > 0xBF) then none
        else if b = 0xF4 ∧ (b2 < 0x80 ∨ b2 > 0x8F) then none
        else if b ≥ 0xF1 ∧ b ≤ 0xF3 ∧ (b2 < 0x80 ∨ b2 > 0xBF) then none
        else some 4
      | _ => none
    else none

/-- The loop of `is_valid_utf8`; every round advances, so the length is fuel enough. -/
def validateFrom (bytes : Bytes) : ℕ → ℕ → Bool
  | 0, i => decide (bytes.length ≤ i)
  | fuel + 1, i =>
    if i < bytes.length then
      match isValidUtf8Sequence (bytes.drop i) with
      | none => false
      | some n => validateFrom bytes fuel (i + n)
    else true

def isValidUtf8 (str : Option CString) : Bool :=
  match str with
  | none => false
  | some s => validateFrom s.bytes s.bytes.length 0

def writeJsonByte (c : UInt8) : Cli SaltStatus :=
  if c = 34 ∨ c = 92 then do
    let rc ← cliStreamPutc 92
    if rc ≠ .ok then return .errIo else cliStreamPutc c
  else if c = 10 then cliStreamPuts (ascii "\\n")
  else if c = 13 then cliStreamPuts (ascii "\\r")
  else if c = 9 then cliStreamPuts (ascii "\\t")
  else if c < 0x20 then cliStreamWrite (unicodeEscape c)
  else cliStreamPutc c

def writeJsonBytes : Bytes → Cli SaltStatus
  | [] => cliStreamPutc 34
  | c :: cursor => do
    let rc ← writeJsonByte c
    if rc ≠ .ok then return .errIo else writeJsonBytes cursor

def writeJsonString (value : CString) : Cli SaltStatus := do
  let rc ← cliStreamPutc 34
  if rc ≠ .ok then return .errIo else writeJsonBytes value.bytes

/-- `a() != SALT_OK || b() != SALT_OK || ..`: stops at the first failure. -/
def writeAll : List (Cli SaltStatus) → Cli SaltStatus
  | [] => return .ok
  | write :: rest => do
    let rc ← write
    if rc ≠ .ok then return .errIo else writeAll rest

def emitError (message : Bytes) : Cli SaltStatus := do
  modifyState fun s => { s with error := vsnprintf s.error message }
  return .errInput

def emitText (encryptedValue : CString) : Cli SaltStatus := do
  let rc ← cliStreamWrite (encryptedValue.bytes ++ ascii "\n")
  if rc ≠ .ok then return .errIo else cliStreamFlush

def emitJson (encryptedValue keyId : CString) : Cli SaltStatus := do
  let rc ← writeAll [cliStreamPutc 123, cliStreamPuts (ascii "\"encrypted_value\":"),
    writeJsonString encryptedValue, cliStreamPuts (ascii ",\"key_id\":"), writeJsonString keyId,
    cliStreamPuts [125, 10]]
  if rc ≠ .ok then return .errIo else cliStreamFlush

def saltCliEmitOutput (outputMode : OutputMode) (encryptedValue : CString)
    (keyId : Option CString) : Cli SaltStatus :=
  if outputMode = .text then emitText encryptedValue
  else
    match keyId with
    | none => emitError (ascii "JSON output requires key_id (provide JSON key_id or --key-id)")
    | some keyId =>
      if keyId.bytes = [] then
        emitError (ascii "JSON output requires key_id (provide JSON key_id or --key-id)")
      else if !isValidUtf8 (some keyId) then
        emitError (ascii "key_id contains invalid UTF-8 (JSON requires valid UTF-8 strings)")
      else emitJson encryptedValue keyId

end Salt
