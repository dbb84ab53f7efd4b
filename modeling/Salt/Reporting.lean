import Salt.World

set_option autoImplicit false

/-!
# Stream reports and signals

`stream.c` and `signal.c`. A format string and its arguments are the bytes
they print. `useError` says whether the caller passed the error buffer of the
state or a null pointer.
-/
namespace Salt
open ByteStrings TracedState

def saltCliSetError (useError : Bool) (message : Bytes) (rc : SaltStatus) : Cli SaltStatus := do
  modifyState fun s => if useError then { s with error := vsnprintf s.error message } else s
  return rc

def saltCliFlushStream (stream : Sink) (useError : Bool) (message : Bytes) : Cli SaltStatus := do
  let ok ← fflush stream
  if !ok then saltCliSetError useError message .errIo else return .ok

def saltCliWriteStream (stream : Sink) (useError : Bool) (message text : Bytes) :
    Cli SaltStatus := do
  let ok ← vfprintf stream text
  if !ok then saltCliSetError useError message .errIo
  else saltCliFlushStream stream useError message

def saltCliReportStreamStatus (stream : Sink) (useError : Bool) (rc : SaltStatus)
    (text : Bytes) : Cli SaltStatus := do
  let ok ← vfprintf stream text
  if !ok then saltCliSetError useError (ascii "failed to write diagnostic") .errIo
  else
    let flushed ← saltCliFlushStream stream useError (ascii "failed to write diagnostic")
    if flushed ≠ .ok then return .errIo else return rc

/-- `"error: %s\n"` with the error buffer of the state. -/
def stateErrorText (s : CliState) : Bytes := ascii "error: " ++ cstr s.error ++ ascii "\n"

/-- The static function of this name in `input.c` and in `prepare.c`. -/
def saltCliReportStateError (rc : SaltStatus) : Cli SaltStatus := do
  let s ← getState
  saltCliReportStreamStatus .err false rc (stateErrorText s)

def sigemptyset : Cli ℤ := atomic fun w => (w.env.sigemptyset w.clock, w)

def World.disposition (w : World) : Signal → Disposition
  | .sigint => w.sigint
  | .sigterm => w.sigterm

def World.setDisposition (w : World) : Signal → Disposition → World
  | .sigint, d => { w with sigint := d }
  | .sigterm, d => { w with sigterm := d }

def World.saved (w : World) : Signal → Option Disposition
  | .sigint => w.savedSigint
  | .sigterm => w.savedSigterm

def World.setSaved (w : World) : Signal → Option Disposition → World
  | .sigint, d => { w with savedSigint := d }
  | .sigterm, d => { w with savedSigterm := d }

/-- `sigaction` with the new action `d`: its result and the disposition it replaced. -/
def sigaction (signal : Signal) (d : Disposition) : Cli (ℤ × Disposition) := atomic fun w =>
  ((w.env.sigaction w.clock, w.disposition signal),
    if w.env.sigaction w.clock = 0 then w.setDisposition signal d else w)

def setSaved (signal : Signal) (d : Option Disposition) : Cli Unit :=
  Traced.update fun w => w.setSaved signal d

/-- Records the clock at which the handlers are known to be installed. -/
def markInstalled : Cli Unit := Traced.update fun w => { w with installedAt := some w.clock }

def saltCliEnsureSignalHandlers : Cli SaltStatus := do
  let emptied ← sigemptyset
  if emptied ≠ 0 then return .errInternal
  else
    let (rc, old) ← sigaction .sigint .saltHandler
    if rc ≠ 0 then return .errInternal
    else
      setSaved .sigint (some old)
      let (rc, oldTerm) ← sigaction .sigterm .saltHandler
      if rc ≠ 0 then
        let _ ← sigaction .sigint old
        setSaved .sigint none
        return .errInternal
      else
        setSaved .sigterm (some oldTerm)
        markInstalled
        return .ok

def restoreSignalHandler (signal : Signal) : Cli Unit := do
  let saved ← Traced.read fun w => w.saved signal
  match saved with
  | none => return ()
  | some d =>
    let _ ← sigaction signal d
    setSaved signal none

def saltCliRestoreSignalHandlers : Cli Unit := do
  restoreSignalHandler .sigint
  restoreSignalHandler .sigterm

def loadInterrupted : Cli Bool := atomic fun w => (w.interrupted, w)

def saltCliCheckInterrupted : Cli SaltStatus := do
  let interrupted ← loadInterrupted
  if interrupted then saltCliSetError true (ascii "operation interrupted") .errSignal
  else return .ok

def saltCliResetInterrupted : Cli Unit := atomic fun w =>
  ((), { w with interrupted := false, clearedAt := some (w.clock + 1) })

end Salt
