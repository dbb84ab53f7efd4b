import Salt.Reporting

set_option autoImplicit false

/-!
# Stream and input ingestion

`input.c`. The block a read fills belongs to the reading function until it is
returned or released.
-/
namespace Salt
open ByteStrings TracedState KeyParsing

/-- `memchr` finds the terminator, or the bound is the length. -/
def cliBoundedStrlen (value : Bytes) (maxLen : ℕ) : Option ℕ :=
  (memchr value 0 maxLen).map fun nul => nul.getD maxLen

def cliSecureReleaseBuffer (buffer len : ℕ) : Cli Unit := do
  let rc ← sodiumMunlock buffer len
  if rc ≠ 0 then
    sodiumMemzero buffer len
    saltCliFreeImpl buffer
  else saltCliFreeImpl buffer

/-- The status of a read, with the block and the number of bytes when it succeeded. -/
abbrev ReadResult := SaltStatus × Option (ℕ × ℕ)

def failRead (buffer maxLen : ℕ) (message : Bytes) (rc : SaltStatus) : Cli ReadResult := do
  let rc ← saltCliSetError true message rc
  cliSecureReleaseBuffer buffer (maxLen + 1)
  return (rc, none)

def finishRead (buffer bytesRead : ℕ) : Cli ReadResult := do
  editBlock buffer fun bytes => store bytes bytesRead 0
  return (.ok, some (buffer, bytesRead))

/-- The probe for one byte past a full buffer. -/
def probeRead (buffer maxLen : ℕ) : Cli ReadResult := do
  let nextChar ← saltCliFgetcImpl
  match nextChar with
  | none => do
    let failed ← saltCliFerrorImpl
    if failed then failRead buffer maxLen (ascii "failed to read from stdin") .errIo
    else finishRead buffer maxLen
  | some c => do
    let restored ← saltCliUngetcImpl c
    if !restored then
      failRead buffer maxLen (ascii "failed to restore stdin after size probe") .errIo
    else failRead buffer maxLen (ascii "stdin input exceeds maximum length") .errInput

def fillBuffer (buffer maxLen : ℕ) : Cli ReadResult := do
  sodiumMlock (maxLen + 1)
  let bytesRead ← saltCliFreadImpl buffer maxLen
  let rc ← saltCliCheckInterrupted
  if rc ≠ .ok then
    cliSecureReleaseBuffer buffer (maxLen + 1)
    return (.errSignal, none)
  else
    let failed ← saltCliFerrorImpl
    if failed then failRead buffer maxLen (ascii "failed to read from stdin") .errIo
    else if bytesRead = maxLen then probeRead buffer maxLen
    else finishRead buffer bytesRead

def cliInputReadStreamLimited (maxLen : ℕ) : Cli ReadResult := do
  let width ← Traced.read fun w => w.env.width
  if sizeMax width - 1 < maxLen then
    let rc ← saltCliSetError true (ascii "input size overflow") .errInternal
    return (rc, none)
  else
    let rc ← saltCliCheckInterrupted
    if rc ≠ .ok then return (.errSignal, none)
    else
      let buffer ← saltCliAllocImpl (maxLen + 1)
      match buffer with
      | none => do
        let rc ← saltCliSetError true (ascii "failed to allocate input buffer") .errInternal
        return (rc, none)
      | some buffer => fillBuffer buffer maxLen

def copyString (source dest : Bytes) (length : ℕ) : Option Bytes :=
  (copyBytes source dest 0 length).bind fun dest => store dest length 0

def maxPlaintextText : Bytes :=
  ascii "error: plaintext exceeds maximum length (" ++ decimal saltGithubSecretMaxValueLen ++
    ascii " bytes; GitHub Actions caps secret values at 48 KB)\n"

def positionalMemory (w : World) (i : ℕ) : Bytes := w.positionals.getD i [] ++ [0]

def scrubPositional (i len : ℕ) : Cli Unit := atomic fun w =>
  ((), { w with positionals :=
    w.positionals.modify i fun s => List.replicate (min len s.length) 0 ++ s.drop len })

/-- The argument is in range: the parser took the number from the positionals. -/
def saltCliLoadPlaintextFromArgv (plaintextArg : ℕ) : Cli SaltStatus := do
  let source ← Traced.read fun w => positionalMemory w plaintextArg
  let width ← Traced.read fun w => w.env.width
  match cliBoundedStrlen source (saltGithubSecretMaxValueLen + 1) with
  | none => do
    undefinedBehaviour
    return .errInternal
  | some argLen =>
    if saltGithubSecretMaxValueLen < argLen then
      saltCliReportStreamStatus .err true .errInput maxPlaintextText
    else if sizeMax width - 1 < argLen then
      saltCliReportStreamStatus .err true .errInput (ascii "error: plaintext size overflow\n")
    else
      modifyState fun s => { s with argvPlaintextCap := argLen + 1 }
      let copy ← saltCliAllocImpl (argLen + 1)
      match copy with
      | none =>
        saltCliReportStreamStatus .err true .errInternal
          (ascii "internal error: failed to allocate plaintext buffer\n")
      | some copy => do
        modifyState fun s => { s with argvPlaintextCopy := some copy }
        sodiumMlock (argLen + 1)
        editBlock copy fun dest => copyString source dest argLen
        scrubPositional plaintextArg argLen
        modifyState fun s => { s with message := some copy, messageLen := argLen }
        return .ok

/-- The first block of `salt_cli_input_load_key_input`: the key comes from stdin. -/
def loadKeyFromStdin : Cli SaltStatus := do
  let (rc, result) ← cliInputReadStreamLimited saltMaxKeyInputLen
  match result with
  | none => saltCliReportStateError rc
  | some (stdinKey, keyLen) => do
    modifyState fun s => { s with stdinKey := some stdinKey }
    editBlock stdinKey fun value => saltCliTrimWhitespaceInplace value (keyLen + 1)
    let first ← readByte stdinKey 0
    if first = 0 then
      saltCliReportStreamStatus .err true .errInput
        (ascii "error: key input from stdin is empty\n")
    else
      modifyState fun s => { s with keyOption := some (.block stdinKey) }
      return .ok

def maxKeyInputText : Bytes :=
  ascii "error: key input exceeds maximum length (" ++ decimal saltMaxKeyInputLen ++
    ascii " bytes)\n"

/-- The second block: a bounded copy of the key text. -/
def copyKeyOption : Cli SaltStatus := do
  let s ← getState
  let source ← Traced.read fun w => s.keyOption.elim [] (refMemory w)
  match cliBoundedStrlen source (saltMaxKeyInputLen + 1) with
  | none => do
    undefinedBehaviour
    return .errInternal
  | some keyCopyLen =>
    if saltMaxKeyInputLen < keyCopyLen then
      saltCliReportStreamStatus .err true .errInput maxKeyInputText
    else
      let copy ← saltCliAllocImpl (keyCopyLen + 1)
      match copy with
      | none =>
        saltCliReportStreamStatus .err true .errInternal
          (ascii "internal error: failed to allocate key buffer\n")
      | some copy => do
        modifyState fun s =>
          { s with trimmedKeyInput := some copy, trimmedKeyInputCap := keyCopyLen + 1 }
        sodiumMlock (keyCopyLen + 1)
        editBlock copy fun dest => copyString source dest keyCopyLen
        editBlock copy fun value => saltCliTrimWhitespaceInplace value (keyCopyLen + 1)
        return .ok

/-- The fields of the state behind a parse. -/
def withParsed (out : KeyOut) (s : CliState) : CliState := { s with
  parsedKeyB64 := out.keyB64.getD s.parsedKeyB64
  parsedKeyId := out.keyId.getD s.parsedKeyId
  parsedHasKeyId := out.hasKeyId.getD s.parsedHasKeyId
  error := out.error.getD s.error }

def parseTrimmedKey (w : World) : Option (SaltStatus × KeyOut) :=
  saltCliParseKeyInput (w.state.trimmedKeyInput.map (blockBytes w)) w.state.keyFormat
    ⟨some w.state.parsedKeyB64, some w.state.parsedKeyId, some w.state.parsedHasKeyId,
      some w.state.error⟩

/-- The call of `salt_cli_parse_key_input` on the state. -/
def parseKeyOfState : Cli SaltStatus := Traced.step fun w =>
  match parseTrimmedKey w with
  | none => (.errInternal, { w with undefined := true })
  | some (rc, out) => (rc, { w with state := withParsed out w.state })

/-- A poll of the interruption flag that ends in a report. -/
def reportIfInterrupted : Cli SaltStatus := do
  let rc ← saltCliCheckInterrupted
  if rc ≠ .ok then saltCliReportStateError rc else return .ok

def keyFromStdinStage : Cli SaltStatus := do
  let s ← getState
  if s.keyFromStdin then loadKeyFromStdin else return .ok

def saltCliInputLoadKeyInput : Cli SaltStatus := do
  let rc ← keyFromStdinStage
  if rc ≠ .ok then return rc
  else
    let rc ← copyKeyOption
    if rc ≠ .ok then return rc
    else
      let rc ← parseKeyOfState
      if rc ≠ .ok then saltCliReportStateError rc
      else reportIfInterrupted

def loadPlaintextFromStdin : Cli SaltStatus := do
  let (rc, result) ← cliInputReadStreamLimited saltGithubSecretMaxValueLen
  match result with
  | none => saltCliReportStateError rc
  | some (stdinPlaintext, messageLen) => do
    modifyState fun s => { s with
      stdinPlaintext := some stdinPlaintext
      message := some stdinPlaintext
      messageLen := messageLen }
    return .ok

def loadPlaintextSource : Cli SaltStatus := do
  let s ← getState
  if s.plaintextFromStdin then loadPlaintextFromStdin
  else saltCliLoadPlaintextFromArgv (s.plaintextArg.getD 0)

def saltCliInputLoadPlaintext : Cli SaltStatus := do
  let rc ← loadPlaintextSource
  if rc ≠ .ok then return rc
  else
    let rc ← reportIfInterrupted
    if rc ≠ .ok then return rc
    else
      let s ← getState
      if s.messageLen = 0 then
        saltCliReportStreamStatus .err true .errInput
          (ascii "error: plaintext must not be empty\n")
      else return .ok

end Salt
