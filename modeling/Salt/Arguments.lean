import Salt.Reporting

set_option autoImplicit false

/-!
# Argument parsing

`args.c` and the two writers of `main.c`. `getopt_long` is represented by the
option events it yields, in order, and the positional arguments it leaves.
-/
namespace Salt
open ByteStrings TracedState

inductive OptEvent where
  | key (optarg : CString)
  | keyId (optarg : CString)
  | output (optarg : CString)
  | keyFormat (optarg : CString)
  | help
  | version
  | missingArgument (optopt : UInt8)
  | unknown (optopt : UInt8) (token : CString)

structure Invocation where
  argc : ℤ
  argv : Option (List (Option CString))
  events : List OptEvent
  positionals : List CString

def Invocation.arg (inv : Invocation) (i : ℕ) : Option CString := (inv.argv.getD []).getD i none

def emptyString : CString := ⟨[], by simp⟩

def Invocation.program (inv : Invocation) : CString := (inv.arg 0).getD emptyString

def setKeyOption (s : CliState) (v : CString) : CliState := { s with keyOption := some (.text v) }

def setKeyIdOption (s : CliState) (v : CString) : CliState := { s with keyIdOption := some v }

def outputModeOf (v : CString) : Option OutputMode :=
  if v.bytes = ascii "text" then some .text
  else if v.bytes = ascii "json" then some .json
  else none

def keyFormatOf (v : CString) : Option KeyFormat :=
  if v.bytes = ascii "auto" then some .auto
  else if v.bytes = ascii "base64" then some .base64
  else if v.bytes = ascii "json" then some .json
  else none

def invalidOutputText (v : CString) : Bytes :=
  ascii "error: invalid output format '" ++ v.bytes ++ ascii "' (expected text|json)\n"

def invalidKeyFormatText (v : CString) : Bytes :=
  ascii "error: invalid key format '" ++ v.bytes ++ ascii "' (expected auto|base64|json)\n"

def missingArgumentText (optopt : UInt8) : Bytes :=
  ascii "error: option requires an argument: -" ++ [optopt] ++ ascii "\n"

def invalidOptionText (optopt : UInt8) (token : CString) : Bytes :=
  if optopt ≠ 0 then ascii "error: invalid option: -" ++ [optopt] ++ ascii "\n"
  else ascii "error: invalid option: " ++ token.bytes ++ ascii "\n"

/-- The state an option leaves, or the text of the report it causes. -/
def handleOption (s : CliState) : OptEvent → Except Bytes CliState
  | .key v => .ok (setKeyOption s v)
  | .keyId v => .ok (setKeyIdOption s v)
  | .output v =>
    match outputModeOf v with
    | some mode => .ok { s with outputMode := mode }
    | none => .error (invalidOutputText v)
  | .keyFormat v =>
    match keyFormatOf v with
    | some format => .ok { s with keyFormat := format }
    | none => .error (invalidKeyFormatText v)
  | .help => .ok { s with showHelp := true }
  | .version => .ok { s with showVersion := true }
  | .missingArgument optopt => .error (missingArgumentText optopt)
  | .unknown optopt token => .error (invalidOptionText optopt token)

def saltCliHandleOption (event : OptEvent) : Cli SaltStatus := do
  let s ← getState
  match handleOption s event with
  | .ok s => do
    modifyState fun _ => s
    return .ok
  | .error text => saltCliReportStreamStatus .err true .errInput text

def handleOptions : List OptEvent → Cli SaltStatus
  | [] => return .ok
  | event :: rest => do
    let rc ← saltCliHandleOption event
    if rc ≠ .ok then return rc else handleOptions rest

def usageText (program : Bytes) : Bytes :=
  ascii "usage: " ++ program ++ ascii " [OPTIONS] [PLAINTEXT]\n" ++
  ascii "\n" ++
  ascii "Encrypt plaintext using libsodium sealed boxes for GitHub secrets.\n" ++
  ascii "\n" ++
  ascii "Options:\n" ++
  ascii "  -k, --key VALUE         Public key input (base64, JSON key object, or '-')\n" ++
  ascii "  -i, --key-id ID         Key ID override/inject for JSON output\n" ++
  ascii "  -o, --output FORMAT     Output format: text|json (default: text)\n" ++
  ascii "  -f, --key-format MODE   Key format: auto|base64|json (default: auto)\n" ++
  ascii "  -h, --help              Show this help text and exit\n" ++
  ascii "  -V, --version           Show version information and exit\n" ++
  ascii "\n" ++
  ascii "Input rules:\n" ++
  ascii "  PLAINTEXT omitted or '-' reads plaintext from stdin.\n" ++
  ascii "  --key - reads key input from stdin.\n" ++
  ascii "  Key and plaintext cannot both be read from stdin in one invocation.\n" ++
  ascii "\n" ++
  ascii "Security:\n" ++
  ascii "  Sensitive plaintext should be passed via stdin; positional arguments\n" ++
  ascii "  are visible in process listings (ps, /proc/<pid>/cmdline).\n" ++
  ascii "\n" ++
  ascii "Examples:\n" ++
  ascii "  " ++ program ++ ascii " -k '<base64-public-key>' 'hello'\n" ++
  ascii "  " ++ program ++ ascii " -o json -k '\x7b\"key_id\":\"123\",\"key\":\"<base64-public-key>\"\x7d' 'hello'\n" ++
  ascii "  echo 'hello' | " ++ program ++
  ascii " -o json -k '\x7b\"key_id\":\"123\",\"key\":\"<base64-public-key>\"\x7d' -\n"

def versionText (version : Bytes) : Bytes := ascii "salt " ++ version ++ ascii "\n"

def printUsage (stream : Sink) (program : CString) : Cli SaltStatus :=
  saltCliWriteStream stream true (ascii "failed to write help output") (usageText program.bytes)

def printVersion (stream : Sink) : Cli SaltStatus := do
  let version ← Traced.read fun w => w.env.version
  saltCliWriteStream stream true (ascii "failed to write version output") (versionText version)

def reportWithUsage (program : CString) (text : Bytes) : Cli SaltStatus := do
  let rc ← saltCliReportStreamStatus .err true .errInput text
  if rc = .errIo then return rc
  else
    let rc ← printUsage .err program
    if rc = .ok then return .errInput else return rc

def maxKeyIdText : Bytes :=
  ascii "error: --key-id/-i exceeds maximum length (" ++ decimal saltMaxKeyIdLen ++
    ascii " bytes)\n"

/-- `key_id_option` is set, not empty, and its bounded length passes the limit. -/
def keyIdTooLong (s : CliState) : Bool :=
  match s.keyIdOption with
  | none => false
  | some v => decide (v.bytes ≠ [] ∧ saltMaxKeyIdLen < min v.bytes.length (saltMaxKeyIdLen + 1))

def keyOptionIs (s : CliState) (bytes : Bytes) : Bool :=
  match s.keyOption with
  | some (.text v) => decide (v.bytes = bytes)
  | _ => false

def selectPositionals (positionals : List CString) (s : CliState) : CliState := { s with
  plaintextArg := if positionals = [] then none else some 0
  keyFromStdin := keyOptionIs s (ascii "-")
  plaintextFromStdin := positionals.head?.elim true fun v => v.bytes = ascii "-" }

def checkOptions (inv : Invocation) : Cli SaltStatus := do
  let s ← getState
  if s.keyOption.isNone then
    reportWithUsage inv.program (ascii "error: --key/-k is required\n")
  else if keyOptionIs s [] then
    saltCliReportStreamStatus .err true .errInput
      (ascii "error: --key/-k value must not be empty\n")
  else if keyIdTooLong s then saltCliReportStreamStatus .err true .errInput maxKeyIdText
  else if 1 < inv.positionals.length then
    modifyState fun s => { s with plaintextArg := some 0 }
    reportWithUsage inv.program (ascii "error: too many positional arguments\n")
  else
    modifyState (selectPositionals inv.positionals)
    let s ← getState
    if s.keyFromStdin && s.plaintextFromStdin then
      saltCliReportStreamStatus .err true .errInput
        (ascii "error: key and plaintext cannot both be read from stdin\n")
    else return .ok

def dispatchOptions (inv : Invocation) : Cli SaltStatus := do
  let s ← getState
  if s.showHelp then printUsage .out inv.program
  else if s.showVersion then printVersion .out
  else checkOptions inv

def saltCliArgsParseArguments (inv : Invocation) : Cli SaltStatus := do
  let rc ← handleOptions inv.events
  if rc ≠ .ok then return rc else dispatchOptions inv

end Salt
