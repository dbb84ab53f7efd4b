import Salt.ByteStrings
import Mathlib.Algebra.Group.Nat.Defs

set_option autoImplicit false

/-!
# Status codes, limits and option values of the salt headers
-/
namespace Salt
open ByteStrings

/-- The width of `size_t`. -/
inductive SizeWidth where
  | w32
  | w64
deriving DecidableEq, Repr

def SizeWidth.modulus : SizeWidth → ℕ
  | .w32 => 2 ^ 32
  | .w64 => 2 ^ 64

def sizeMax (W : SizeWidth) : ℕ := W.modulus - 1

theorem modulus_large (W : SizeWidth) : 2 ^ 32 ≤ W.modulus := by
  cases W <;> decide

inductive SaltStatus where
  | ok
  | errInput
  | errCrypto
  | errInternal
  | errIo
  | errSignal
deriving DecidableEq, Repr

def saltMaxMessageLen : ℕ := 1024 * 1024
def saltMaxKeyInputLen : ℕ := 16 * 1024
def saltMaxKeyIdLen : ℕ := 256
def saltGithubSecretMaxValueLen : ℕ := 48 * 1024

/-- `sizeof(state->error)`. -/
def errorSize : ℕ := 256

def cryptoBoxPublicKeyBytes : ℕ := 32
def cryptoBoxSealBytes : ℕ := 48

inductive KeyFormat where
  | auto
  | base64
  | json
deriving DecidableEq, Repr

inductive OutputMode where
  | text
  | json
deriving DecidableEq, Repr

end Salt
