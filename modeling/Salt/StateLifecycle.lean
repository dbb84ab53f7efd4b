import Salt.Reporting

set_option autoImplicit false

/-!
# The life of the CLI state

`state.c`.
-/
namespace Salt
open ByteStrings TracedState

def saltCliSecureUnlockRegion (id len : ℕ) : Cli Unit := do
  if len = 0 then return ()
  else
    let rc ← sodiumMunlock id len
    if rc ≠ 0 then sodiumMemzero id len else return ()

def saltCliSecureFreeRegion (id : Option ℕ) (len : ℕ) : Cli Unit := do
  match id with
  | none => return ()
  | some id =>
    saltCliSecureUnlockRegion id len
    saltCliFreeImpl id

inductive FixedBuffer where
  | parsedKeyB64
  | parsedKeyId
  | error

def wipeFixedBuffer : FixedBuffer → CliState → CliState
  | .parsedKeyB64, s => { s with parsedKeyB64 := List.replicate s.parsedKeyB64.length 0 }
  | .parsedKeyId, s => { s with parsedKeyId := List.replicate s.parsedKeyId.length 0 }
  | .error, s => { s with error := List.replicate s.error.length 0 }

/-- `salt_cli_secure_unlock_region` on a fixed buffer: munlock wipes, memzero wipes again. -/
def unlockFixedBuffer (buffer : FixedBuffer) : Cli Unit := do
  let rc ← atomic fun w =>
    (w.env.munlock w.clock, { w with state := wipeFixedBuffer buffer w.state })
  if rc ≠ 0 then modifyState (wipeFixedBuffer buffer) else return ()

def saltCliStateInit : Cli Unit := do
  modifyState fun _ => zeroState
  modifyState fun s => { s with outputMode := .text, keyFormat := .auto }
  sodiumMlock (saltMaxKeyInputLen + 1)
  sodiumMlock (saltMaxKeyIdLen + 1)
  sodiumMlock errorSize
  modifyState fun s => { s with fixedBuffersLocked := true }

def unlockFixedBuffers (locked : Bool) : Cli Unit := do
  if locked then
    unlockFixedBuffer .parsedKeyB64
    unlockFixedBuffer .parsedKeyId
    unlockFixedBuffer .error
  else return ()

def saltCliStateCleanup : Cli Unit := do
  let s ← getState
  saltCliSecureFreeRegion s.output s.outputCap
  saltCliSecureFreeRegion s.stdinKey (saltMaxKeyInputLen + 1)
  saltCliSecureFreeRegion s.stdinPlaintext (saltGithubSecretMaxValueLen + 1)
  saltCliSecureFreeRegion s.argvPlaintextCopy s.argvPlaintextCap
  saltCliSecureFreeRegion s.trimmedKeyInput s.trimmedKeyInputCap
  unlockFixedBuffers s.fixedBuffersLocked
  modifyState fun _ => zeroState

def resolveEffectiveKeyId (s : CliState) : CliState :=
  match s.keyIdOption with
  | some keyId =>
    if keyId.bytes ≠ [] then { s with effectiveKeyId := some keyId }
    else if s.parsedHasKeyId then
      { s with effectiveKeyId := some (CString.ofBuffer s.parsedKeyId) }
    else s
  | none =>
    if s.parsedHasKeyId then { s with effectiveKeyId := some (CString.ofBuffer s.parsedKeyId) }
    else s

def saltCliResolveEffectiveKeyId : Cli Unit := modifyState resolveEffectiveKeyId

end Salt
