import Salt.Arguments
import Salt.Emission
import Salt.Ingestion
import Salt.StateLifecycle

set_option autoImplicit false

/-!
# Output preparation and the run

`prepare.c` and `main.c`.
-/
namespace Salt
open ByteStrings BlockHeap TracedState Sealing

/-- The message the seal is given. Bytes past the block are never read: such lengths are refused. -/
def messageBytes (block : Bytes) (messageLen : ℕ) : Bytes :=
  block.take messageLen ++ List.replicate (messageLen - block.length) 0

def sealState (w : World) : SealResult :=
  saltSealBase64 w.env.width w.env.sodium
    (w.state.message.map fun id => messageBytes (blockBytes w id) w.state.messageLen)
    (some (CString.ofBuffer w.state.parsedKeyB64)) (w.state.output.map (blockBytes w))
    (some w.state.outputWritten) (some w.state.error)

def withSealed (r : SealResult) (s : CliState) : CliState := { s with
  outputWritten := r.outputWritten.getD s.outputWritten
  error := r.error.getD s.error }

def saltCliSealImpl : Cli SaltStatus := atomic fun w =>
  let r := sealState w
  (r.status, record (.seal w.state.messageLen) { w with
    state := withSealed r w.state
    heap := match w.state.output, r.output with
      | some id, some bytes => w.heap.modify id (Block.edit fun _ => bytes)
      | _, _ => w.heap })

/-- Records the clock behind the poll that follows the seal. -/
def markSealPoll : Cli Unit := Traced.update fun w => { w with sealPollAt := some w.clock }

def checkSealed : Cli SaltStatus := do
  let rc ← saltCliCheckInterrupted
  markSealPoll
  if rc ≠ .ok then saltCliReportStateError rc
  else
    let s ← getState
    if s.outputWritten = 0 then
      saltCliReportStreamStatus .err true .errInternal (ascii "error: produced empty output\n")
    else return .ok

def sealIntoOutput (output outputSize : ℕ) : Cli SaltStatus := do
  modifyState fun s => { s with output := some output, outputCap := outputSize }
  sodiumMlock outputSize
  let rc ← saltCliSealImpl
  if rc ≠ .ok then saltCliReportStateError rc else checkSealed

def saltCliPrepareOutput : Cli SaltStatus := do
  saltCliResolveEffectiveKeyId
  let outputSize ← Traced.read fun w => saltRequiredBase64OutputLen w.env.width w.state.messageLen
  if outputSize = 0 then
    saltCliReportStreamStatus .err true .errInternal
      (ascii "internal error: output size overflow\n")
  else
    let output ← saltCliAllocImpl outputSize
    match output with
    | none =>
      saltCliReportStreamStatus .err true .errInternal
        (ascii "internal error: failed to allocate output buffer\n")
    | some output => sealIntoOutput output outputSize

def saltCliHasValidArgvShape (inv : Invocation) : Bool :=
  decide (0 < inv.argc) && inv.argv.isSome && (inv.arg 0).any (fun s => s.bytes ≠ []) &&
    (List.range inv.argc.toNat).all fun i => (inv.arg i).isSome

/-- `salt_cli_write_stream` with the error buffer printed and its own failure not recorded. -/
def writeStateError : Cli SaltStatus := do
  let s ← getState
  saltCliWriteStream .err false (ascii "failed to write diagnostic") (stateErrorText s)

/-- Reports the error buffer; a failed report replaces the status. -/
def reportOrIo (rc : SaltStatus) : Cli SaltStatus := do
  let written ← writeStateError
  if written ≠ .ok then return .errIo else return rc

def installStage (manageSignals : Bool) : Cli SaltStatus := do
  if manageSignals then
    let rc ← saltCliEnsureSignalHandlers
    if rc ≠ .ok then
      let rc ← saltCliSetError true (ascii "failed to install signal handlers") .errInternal
      reportOrIo rc
    else return .ok
  else return .ok

def emitStage : Cli SaltStatus := do
  let s ← getState
  let value ← Traced.read fun w => CString.ofBuffer (s.output.elim [] (blockBytes w))
  let rc ← saltCliEmitOutput s.outputMode value s.effectiveKeyId
  if rc ≠ .ok then reportOrIo rc else return .ok

def encryptStages : Cli SaltStatus := do
  let rc ← saltCliInputLoadKeyInput
  if rc ≠ .ok then return rc
  else
    let rc ← saltCliInputLoadPlaintext
    if rc ≠ .ok then return rc
    else
      let rc ← saltCliPrepareOutput
      if rc ≠ .ok then return rc else emitStage

/-- The branch taken when the parser fails or has written help or version text. -/
def finishArguments (s : CliState) (rc : SaltStatus) : Cli SaltStatus := do
  if (s.showHelp || s.showVersion) && rc ≠ .ok then
    let _ ← writeStateError
    return rc
  else return rc

def runArguments (inv : Invocation) : Cli SaltStatus := do
  let rc ← saltCliArgsParseArguments inv
  let s ← getState
  if rc ≠ .ok || s.showHelp || s.showVersion then finishArguments s rc else encryptStages

def runStages (inv : Invocation) (manageSignals : Bool) : Cli SaltStatus := do
  let rc ← installStage manageSignals
  if rc ≠ .ok then return rc
  else
    saltCliResetInterrupted
    runArguments inv

/-- The cleanup label. The stack wipe is not visible in the state. -/
def cleanupRun (manageSignals : Bool) : Cli Unit := do
  if manageSignals then
    saltCliRestoreSignalHandlers
    saltCliStateCleanup
  else saltCliStateCleanup

def saltCliRunWithStreamsInternal (inv : Invocation) (nullStream manageSignals : Bool) :
    Cli SaltStatus := do
  if !saltCliHasValidArgvShape inv || nullStream then return .errInput
  else
    saltCliStateInit
    let rc ← runStages inv manageSignals
    cleanupRun manageSignals
    return rc

def saltCliRunWithStreams (inv : Invocation) (nullStream : Bool) : Cli SaltStatus :=
  saltCliRunWithStreamsInternal inv nullStream false

end Salt
