import Salt.KeyParsing
import Salt.Sealing
import Salt.TracedState

set_option autoImplicit false

/-!
# The process around one CLI run

The state of the C program and of the parts of the system it talks to. Every
call into the system is one atomic step: pending signals are delivered, the
call takes effect, and the clock advances. Its outcome is read from the
environment at the current clock, so all patterns of faults are covered by
ranging over environments.
-/
namespace Salt
open ByteStrings BlockHeap TracedState Sealing

inductive Signal where
  | sigint
  | sigterm
deriving DecidableEq

inductive Disposition where
  | saltHandler
  | other (n : ℕ)
deriving DecidableEq

/-- What the system answers to the calls of a run, by the clock. -/
structure Env where
  width : SizeWidth
  sodium : Sodium
  version : Bytes
  signals : ℕ → Signal → Bool
  alloc : ℕ → Option (ℕ → UInt8)
  munlock : ℕ → ℤ
  sigemptyset : ℕ → ℤ
  sigaction : ℕ → ℤ

/-- One write: all bytes taken, or only some of them; `drained` bytes of the buffer get out. -/
inductive WriteOutcome where
  | ok (drained : ℕ)
  | fail (kept drained : ℕ)

structure OutStream where
  delivered : Bytes
  pending : Bytes
  errorFlag : Bool
  /-- The accepted writes, one entry for each call. -/
  records : List Bytes
  ops : ℕ
  script : ℕ → WriteOutcome

def OutStream.write (data : Bytes) (s : OutStream) : Bool × OutStream :=
  match s.script s.ops with
  | .ok n => (true, { s with
      delivered := s.delivered ++ (s.pending ++ data).take n
      pending := (s.pending ++ data).drop n
      records := s.records ++ [data]
      ops := s.ops + 1 })
  | .fail kept n => (false, { s with
      delivered := s.delivered ++ (s.pending ++ data.take kept).take n
      pending := (s.pending ++ data.take kept).drop n
      errorFlag := true
      ops := s.ops + 1 })

def OutStream.flush (s : OutStream) : Bool × OutStream :=
  match s.script s.ops with
  | .ok _ => (true, { s with
      delivered := s.delivered ++ s.pending
      pending := []
      ops := s.ops + 1 })
  | .fail _ n => (false, { s with
      delivered := s.delivered ++ s.pending.take n
      pending := s.pending.drop n
      errorFlag := true
      ops := s.ops + 1 })

/-- A read fault at a call: an error after that many bytes. -/
structure InStream where
  rest : Bytes
  errorFlag : Bool
  calls : ℕ
  readFault : ℕ → Option ℕ
  ungetFault : ℕ → Bool

def InStream.fread (maxLen : ℕ) (s : InStream) : Bytes × InStream :=
  let n := (s.readFault s.calls).elim maxLen (min maxLen)
  (s.rest.take n, { s with
    rest := s.rest.drop n
    errorFlag := s.errorFlag || (s.readFault s.calls).isSome
    calls := s.calls + 1 })

def InStream.fgetc (s : InStream) : Option UInt8 × InStream :=
  match s.readFault s.calls, s.rest with
  | none, c :: rest => (some c, { s with rest := rest, calls := s.calls + 1 })
  | none, [] => (none, { s with calls := s.calls + 1 })
  | some _, _ => (none, { s with errorFlag := true, calls := s.calls + 1 })

def InStream.ungetc (c : UInt8) (s : InStream) : Bool × InStream :=
  if s.ungetFault s.calls then (false, { s with calls := s.calls + 1 })
  else (true, { s with rest := c :: s.rest, calls := s.calls + 1 })

/-- What a `const char *` of the state points to: a string of argv, or a heap block. -/
inductive TextRef where
  | text (s : CString)
  | block (id : ℕ)

/-- `struct salt_cli_state`. A heap pointer is the number of its block. -/
structure CliState where
  keyOption : Option TextRef
  keyIdOption : Option CString
  outputMode : OutputMode
  keyFormat : KeyFormat
  showHelp : Bool
  showVersion : Bool
  /-- The number of the positional argument. -/
  plaintextArg : Option ℕ
  plaintextFromStdin : Bool
  keyFromStdin : Bool
  stdinKey : Option ℕ
  stdinPlaintext : Option ℕ
  argvPlaintextCopy : Option ℕ
  argvPlaintextCap : ℕ
  trimmedKeyInput : Option ℕ
  trimmedKeyInputCap : ℕ
  parsedKeyB64 : Bytes
  parsedKeyId : Bytes
  parsedHasKeyId : Bool
  effectiveKeyId : Option CString
  message : Option ℕ
  messageLen : ℕ
  output : Option ℕ
  outputCap : ℕ
  outputWritten : ℕ
  fixedBuffersLocked : Bool
  error : Bytes

def zeroState : CliState where
  keyOption := none
  keyIdOption := none
  outputMode := .text
  keyFormat := .auto
  showHelp := false
  showVersion := false
  plaintextArg := none
  plaintextFromStdin := false
  keyFromStdin := false
  stdinKey := none
  stdinPlaintext := none
  argvPlaintextCopy := none
  argvPlaintextCap := 0
  trimmedKeyInput := none
  trimmedKeyInputCap := 0
  parsedKeyB64 := List.replicate (saltMaxKeyInputLen + 1) 0
  parsedKeyId := List.replicate (saltMaxKeyIdLen + 1) 0
  parsedHasKeyId := false
  effectiveKeyId := none
  message := none
  messageLen := 0
  output := none
  outputCap := 0
  outputWritten := 0
  fixedBuffersLocked := false
  error := List.replicate errorSize 0

inductive LibraryCall where
  | alloc (size : ℕ)
  | mlock (len : ℕ)
  | seal (messageLen : ℕ)
deriving DecidableEq

structure World where
  env : Env
  clock : ℕ
  state : CliState
  heap : Heap
  /-- The bytes of the positional arguments. -/
  positionals : List Bytes
  input : InStream
  out : OutStream
  err : OutStream
  /-- `salt_cli_interrupted`, the dispositions in force and the saved ones. -/
  interrupted : Bool
  sigint : Disposition
  sigterm : Disposition
  savedSigint : Option Disposition
  savedSigterm : Option Disposition
  /-- The clock behind three calls: handlers installed, flag cleared, flag polled after the seal. -/
  installedAt : Option ℕ
  clearedAt : Option ℕ
  sealPollAt : Option ℕ
  calls : List LibraryCall
  /-- Set by an access outside an object. -/
  undefined : Bool

abbrev Cli := Traced World

/-- Delivers the signals that arrive now. Only the handler of the program is modelled. -/
def World.deliver (w : World) : World := { w with
  interrupted := w.interrupted ||
    (w.env.signals w.clock .sigint && decide (w.sigint = .saltHandler)) ||
    (w.env.signals w.clock .sigterm && decide (w.sigterm = .saltHandler)) }

def World.tick (w : World) : World := { w with clock := w.clock + 1 }

/-- One call into the system. -/
def atomic {α : Type} (f : World → α × World) : Cli α :=
  Traced.step fun w => ((f w.deliver).1, (f w.deliver).2.tick)

def modifyState (f : CliState → CliState) : Cli Unit :=
  Traced.update fun w => { w with state := f w.state }

def getState : Cli CliState := Traced.read World.state

def record (call : LibraryCall) (w : World) : World := { w with calls := w.calls ++ [call] }

def undefinedBehaviour : Cli Unit := Traced.update fun w => { w with undefined := true }

def saltCliAllocImpl (size : ℕ) : Cli (Option ℕ) := atomic fun w =>
  match w.env.alloc w.clock with
  | none => (none, record (.alloc size) w)
  | some content => (some w.heap.length,
      { record (.alloc size) w with heap := w.heap ++ [⟨size, fresh content size, []⟩] })

/-- The result of `sodium_mlock` is never used. -/
def sodiumMlock (len : ℕ) : Cli Unit := atomic fun w => ((), record (.mlock len) w)

def sodiumMunlock (id len : ℕ) : Cli ℤ := atomic fun w =>
  (w.env.munlock w.clock, { w with heap := w.heap.modify id (Block.wipe len) })

def sodiumMemzero (id len : ℕ) : Cli Unit := atomic fun w =>
  ((), { w with heap := w.heap.modify id (Block.wipe len) })

def saltCliFreeImpl (id : ℕ) : Cli Unit := atomic fun w =>
  ((), { w with heap := w.heap.modify id Block.free })

def blockBytes (w : World) (id : ℕ) : Bytes := (w.heap[id]?.elim [] Block.bytes)

def setBlockBytes (id : ℕ) (bytes : Bytes) (w : World) : World :=
  { w with heap := w.heap.modify id (Block.edit fun _ => bytes) }

/-- A computation on the bytes of a block that must stay inside it. -/
def editBlock (id : ℕ) (f : Bytes → Option Bytes) : Cli Unit := Traced.update fun w =>
  match f (blockBytes w id) with
  | none => { w with undefined := true }
  | some bytes => setBlockBytes id bytes w

def readByte (id i : ℕ) : Cli UInt8 := Traced.step fun w =>
  match (blockBytes w id)[i]? with
  | none => (0, { w with undefined := true })
  | some c => (c, w)

def refMemory (w : World) : TextRef → Bytes
  | .text s => s.memory
  | .block id => blockBytes w id

inductive Sink where
  | out
  | err
deriving DecidableEq

def World.sink (w : World) : Sink → OutStream
  | .out => w.out
  | .err => w.err

def World.setSink (w : World) : Sink → OutStream → World
  | .out, s => { w with out := s }
  | .err, s => { w with err := s }

/-- `vfprintf`, `fputs` and `fputc`, on the bytes they print; whether it succeeded. -/
def vfprintf (sink : Sink) (data : Bytes) : Cli Bool := atomic fun w =>
  let r := (w.sink sink).write data
  (r.1, w.setSink sink r.2)

def fflush (sink : Sink) : Cli Bool := atomic fun w =>
  let r := (w.sink sink).flush
  (r.1, w.setSink sink r.2)

def ferror (sink : Sink) : Cli Bool := Traced.read fun w => (w.sink sink).errorFlag

def saltCliFreadImpl (id maxLen : ℕ) : Cli ℕ := atomic fun w =>
  let r := w.input.fread maxLen
  (r.1.length, setBlockBytes id (put (blockBytes w id) r.1) { w with input := r.2 })

def saltCliFerrorImpl : Cli Bool := Traced.read fun w => w.input.errorFlag

def saltCliFgetcImpl : Cli (Option UInt8) := atomic fun w =>
  (w.input.fgetc.1, { w with input := w.input.fgetc.2 })

def saltCliUngetcImpl (c : UInt8) : Cli Bool := atomic fun w =>
  ((w.input.ungetc c).1, { w with input := (w.input.ungetc c).2 })

def OutStream.Accepts (s : OutStream) : Prop := ∀ i, ∃ n, s.script i = .ok n

structure InStream.Reliable (s : InStream) : Prop where
  errorFlag : s.errorFlag = false
  readFault : ∀ i, s.readFault i = none
  ungetFault : ∀ i, s.ungetFault i = false

/-- From here on no allocation fails, no signal arrives, and both streams do what they should. -/
structure FaultFree (w : World) : Prop where
  alloc : ∀ t, w.clock ≤ t → w.env.alloc t ≠ none
  signals : ∀ t s, w.clock ≤ t → w.env.signals t s = false
  interrupted : w.interrupted = false
  input : w.input.Reliable
  err : w.err.Accepts

def emptyOutStream : OutStream := ⟨[], [], false, [], 0, fun _ => .ok 0⟩

def freshWorld (env : Env) (stdin : Bytes) (positionals : List Bytes) : World where
  env := env
  clock := 0
  state := zeroState
  heap := []
  positionals := positionals
  input := ⟨stdin, false, 0, fun _ => none, fun _ => false⟩
  out := emptyOutStream
  err := emptyOutStream
  interrupted := false
  sigint := .other 0
  sigterm := .other 0
  savedSigint := none
  savedSigterm := none
  installedAt := none
  clearedAt := none
  sealPollAt := none
  calls := []
  undefined := false

def calmEnv (sodium : Sodium) : Env where
  width := .w64
  sodium := sodium
  version := ascii "0.0.0"
  signals _ _ := false
  alloc _ := some fun _ => 0xAA
  munlock _ := 0
  sigemptyset _ := 0
  sigaction _ := 0

theorem freshWorld_faultFree (sodium : Sodium) (stdin : Bytes) (positionals : List Bytes) :
    FaultFree (freshWorld (calmEnv sodium) stdin positionals) where
  alloc t _ := by simp [freshWorld, calmEnv]
  signals t s _ := rfl
  interrupted := rfl
  input := ⟨rfl, fun _ => rfl, fun _ => rfl⟩
  err i := ⟨0, rfl⟩

end Salt
