import Salt.Arguments
import Salt.OptionScan

set_option autoImplicit false

/-!
# The option loop over the argument vector

The loop of `args.c` as it stands: one call of `getopt_long`, one option
handled, until the words end or an option is bad. An `Invocation` holds the
events of the whole scan instead; the loop cannot tell the two apart.
-/
namespace Salt.ArgvScan
open ByteStrings TracedState OptionScan

def longOptions : List LongOption :=
  [⟨ascii "key", true, 107⟩, ⟨ascii "key-id", true, 105⟩, ⟨ascii "output", true, 111⟩,
    ⟨ascii "key-format", true, 102⟩, ⟨ascii "help", false, 104⟩, ⟨ascii "version", false, 86⟩]

/-- With `POSIXLY_CORRECT` in the environment the first operand ends the options. -/
def optionTable (posixlyCorrect : Bool) : Table := ⟨ascii ":k:i:o:f:hV", longOptions, !posixlyCorrect⟩

def argvWords (argc : ℤ) (argv : Option (List (Option CString))) : List Bytes :=
  (((argv.getD []).take argc.toNat).drop 1).map fun s => s.elim [] CString.bytes

def unknownToken : CString := .ofAscii "<unknown>"

/-- The word before `optind`, as far as that is an index of the vector. -/
def saltCliInvalidOptionToken (argc optind : ℤ) (before : Option CString) : CString :=
  if 0 < optind ∧ optind ≤ argc then before.getD unknownToken else unknownToken

/-- The case of `salt_cli_handle_option` an option falls under; `optarg` is a string. -/
def settingEvent (opt : UInt8) (optarg : CString) : OptEvent :=
  if opt = 107 then .key optarg
  else if opt = 105 then .keyId optarg
  else if opt = 111 then .output optarg
  else if opt = 102 then .keyFormat optarg
  else if opt = 104 then .help
  else if opt = 86 then .version
  else .unknown opt emptyString

/-- What a call reports, with the token the last case looks up. That case reads the token only where
`optopt` is zero. -/
def optEvent (token : Bytes → CString) : OptionScan.Event → OptEvent
  | .option opt optarg => settingEvent opt (CString.ofBuffer (optarg.getD []))
  | .missing optopt => .missingArgument optopt
  | .invalid optopt => .unknown optopt emptyString
  | .unrecognized word => .unknown 0 (token word)

/-- `optind` behind a call: what is still to be read lies at the end of the vector. -/
def optindOf (argc : ℤ) (s : Scanner) : ℤ := argc - s.rest.length

def getoptLoop (t : Table) (argc : ℤ) (s : Scanner) : Cli (SaltStatus × Scanner) :=
  match _h : (getoptLong t s).1 with
  | none => return (.ok, (getoptLong t s).2)
  | some e => do
    let rc ← saltCliHandleOption (optEvent (fun word => saltCliInvalidOptionToken argc
      (optindOf argc (getoptLong t s).2) (some (CString.ofBuffer word))) e)
    if rc ≠ .ok then return (rc, (getoptLong t s).2) else getoptLoop t argc (getoptLong t s).2
termination_by s.size
decreasing_by exact getoptLong_size _h

def saltCliArgsParseArgv (posixlyCorrect : Bool) (argc : ℤ) (argv : Option (List (Option CString))) :
    Cli SaltStatus := do
  let r ← getoptLoop (optionTable posixlyCorrect) argc (start (argvWords argc argv))
  if r.1 ≠ .ok then return r.1
  else dispatchOptions ⟨argc, argv, [], r.2.operands.map CString.ofBuffer⟩

def ofArgv (posixlyCorrect : Bool) (argc : ℤ) (argv : Option (List (Option CString))) : Invocation :=
  let r := scan (optionTable posixlyCorrect) (argvWords argc argv)
  ⟨argc, argv, r.1.map (optEvent CString.ofBuffer), r.2.map CString.ofBuffer⟩

section Loop
variable {t : Table} {s : Scanner} {argc : ℤ}

theorem getoptLoop_none (h : (getoptLong t s).1 = none) :
    getoptLoop t argc s = pure (.ok, (getoptLong t s).2) := by
  rw [getoptLoop]
  split
  · rfl
  · next e he => cases h.symm.trans he

theorem getoptLoop_some {e : OptionScan.Event} (h : (getoptLong t s).1 = some e) :
    getoptLoop t argc s = (do
      let rc ← saltCliHandleOption (optEvent (fun word => saltCliInvalidOptionToken argc
        (optindOf argc (getoptLong t s).2) (some (CString.ofBuffer word))) e)
      if rc ≠ .ok then return (rc, (getoptLong t s).2)
      else getoptLoop t argc (getoptLong t s).2) := by
  rw [getoptLoop]
  split
  · next he => cases h.symm.trans he
  · next e' he =>
    obtain rfl : e' = e := Option.some.inj (he.symm.trans h)
    rfl

theorem saltCliInvalidOptionToken_eq (h : (s.rest.length : ℤ) < argc) (token : CString) :
    saltCliInvalidOptionToken argc (optindOf argc s) (some token) = token := by
  rw [saltCliInvalidOptionToken, if_pos]
  · rfl
  · simp only [optindOf]
    omega

theorem optEvent_token (h : (s.rest.length : ℤ) < argc) (e : OptionScan.Event) :
    optEvent (fun word => saltCliInvalidOptionToken argc (optindOf argc s)
      (some (CString.ofBuffer word))) e = optEvent CString.ofBuffer e := by
  cases e with
  | unrecognized word => exact congrArg (OptEvent.unknown 0) (saltCliInvalidOptionToken_eq h _)
  | _ => rfl

structure Matches (r : Run World (SaltStatus × Scanner)) (q : Run World SaltStatus)
    (operands : List Bytes) : Prop where
  status : r.value.1 = q.value
  final : r.final = q.final
  visited : r.visited = q.visited
  operands : q.value = .ok → r.value.2.operands = operands

theorem Matches.bind {m : Cli (SaltStatus × Scanner)} {n : Cli SaltStatus} {w : World}
    {operands : List Bytes} {f : SaltStatus × Scanner → Cli SaltStatus} {g : SaltStatus → Cli SaltStatus}
    (h : Matches (m w) (n w) operands) (hfg : f (m w).value = g (n w).value) :
    (m >>= f) w = (n >>= g) w := by
  change Run.mk _ _ _ = Run.mk _ _ _
  rw [hfg, h.final, h.visited]

/-- The induction is on what the scanner has still to read. -/
theorem getoptLoop_matches (n : ℕ) : ∀ (s : Scanner) (w : World), s.size = n →
    (s.rest.length : ℤ) < argc →
    Matches (getoptLoop t argc s w)
      (handleOptions ((drain t s).1.map (optEvent CString.ofBuffer)) w) (drain t s).2 := by
  induction n using Nat.strong_induction_on with
  | _ n ih =>
    rintro s w rfl hargc
    cases he : (getoptLong t s).1 with
    | none =>
      rw [getoptLoop_none he, drain_none he]
      exact ⟨rfl, rfl, rfl, fun _ => rfl⟩
    | some e =>
      have hrest : ((getoptLong t s).2.rest.length : ℤ) < argc := by
        have := (getoptLong_rest t s).length_le
        omega
      rw [getoptLoop_some he, drain_some he, optEvent_token hrest, List.map_cons, handleOptions]
      set event := optEvent CString.ofBuffer e
      by_cases hrc : (saltCliHandleOption event w).value = .ok
      · have hnext := ih _ (getoptLong_size he) _ (saltCliHandleOption event w).final rfl hrest
        constructor
        · simpa [hrc] using hnext.status
        · simpa [hrc] using hnext.final
        · simpa [hrc] using hnext.visited
        · simpa [hrc] using hnext.operands
      · constructor
        · simp [hrc]
        · simp [hrc]
        · simp [hrc]
        · simp [hrc]

end Loop

theorem argvWords_length {argc : ℤ} (h : 0 < argc) (argv : Option (List (Option CString))) :
    ((start (argvWords argc argv)).rest.length : ℤ) < argc := by
  simp only [start, argvWords, List.length_map, List.length_drop, List.length_take]
  omega

/-- The loop over a whole vector. Where it is empty, the loop ends before it reads a token. -/
theorem getoptLoop_start (t : Table) (argc : ℤ) (argv : Option (List (Option CString))) (w : World) :
    Matches (getoptLoop t argc (start (argvWords argc argv)) w)
      (handleOptions ((scan t (argvWords argc argv)).1.map (optEvent CString.ofBuffer)) w)
      (scan t (argvWords argc argv)).2 := by
  rcases Int.lt_or_le 0 argc with hpos | hnone
  · exact getoptLoop_matches _ _ w rfl (argvWords_length hpos argv)
  · have hwords : argvWords argc argv = [] := by
      rw [argvWords, Int.toNat_of_nonpos hnone]
      rfl
    have hend : (getoptLong t (start [])).1 = none := rfl
    rw [hwords, getoptLoop_none hend, scan, drain_none hend]
    exact ⟨rfl, rfl, rfl, fun _ => rfl⟩

/-- Handling each option as it is found is handling the options of the whole scan in order, for every
vector and from every state: the loop stops at the first bad option, and nothing it has not read by
then matters. -/
theorem saltCliArgsParseArgv_eq (posixlyCorrect : Bool) (argc : ℤ)
    (argv : Option (List (Option CString))) :
    saltCliArgsParseArgv posixlyCorrect argc argv =
      saltCliArgsParseArguments (ofArgv posixlyCorrect argc argv) := by
  funext w
  have hm := getoptLoop_start (optionTable posixlyCorrect) argc argv w
  refine hm.bind ?_
  rw [hm.status]
  split_ifs with hrc
  · rfl
  · rw [hm.operands (not_not.1 hrc)]
    rfl

end Salt.ArgvScan
