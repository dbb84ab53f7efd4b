import Salt.SealingCorrect

set_option autoImplicit false

/-!
# The four entry points of the library

The scan of the key stops at the first length the decoder refuses, so an entry
point that measures the key itself cannot be told from one that is given its
length. The zeroing variants differ only in what becomes of the message.
-/
namespace Salt.EntryPoints
open ByteStrings Sealing SealingContract SealingCorrect

inductive EntryPoint where
  | plain
  | keylen
  | zeroing
  | zeroingKeylen

/-- The message is not written through the const pointer of the first two. -/
def EntryPoint.call (W : SizeWidth) (sodium : Sodium) (message : Option Bytes)
    (key : Option CString) (output : Option Bytes) (outputWritten : Option ℕ)
    (error : Option Bytes) : EntryPoint → EntryResult
  | .plain => ⟨saltSealBase64 W sodium message key output outputWritten error, message⟩
  | .keylen => ⟨saltSealBase64Keylen W sodium message (key.map CString.bytes) output outputWritten
      error, message⟩
  | .zeroing => saltSealBase64WithPlaintextZeroing W sodium message key output outputWritten error
  | .zeroingKeylen => saltSealBase64WithPlaintextZeroingKeylen W sodium message
      (key.map CString.bytes) output outputWritten error

def EntryPoint.zeroes : EntryPoint → Bool
  | .plain | .keylen => false
  | .zeroing | .zeroingKeylen => true

section Agree
variable (W : SizeWidth) (sodium : Sodium) (message output : Option Bytes) (key : Option CString)
  (outputWritten : Option ℕ) (error : Option Bytes)

/-- Clearing the written count twice is clearing it once. -/
theorem saltSealBase64Keylen_cleared (publicKeyB64 : Option Bytes) :
    saltSealBase64Keylen W sodium message publicKeyB64 output (outputWritten.map fun _ => 0) error =
      saltSealBase64Keylen W sodium message publicKeyB64 output outputWritten error := by
  cases outputWritten <;> rfl

theorem zeroingKeylen_result (publicKeyB64 : Option Bytes) :
    (saltSealBase64WithPlaintextZeroingKeylen W sodium message publicKeyB64 output outputWritten
      error).result =
      saltSealBase64Keylen W sodium message publicKeyB64 output outputWritten error := by
  cases message with
  | none => rfl
  | some message => exact saltSealBase64Keylen_cleared ..

theorem zeroingKeylen_message (publicKeyB64 : Option Bytes) :
    (saltSealBase64WithPlaintextZeroingKeylen W sodium message publicKeyB64 output outputWritten
      error).message = message.map zeroPlaintext := by
  cases message <;> rfl

/-- All four entry points leave the same result; the zeroing ones wipe an accepted message. -/
theorem entryPoints_agree (e : EntryPoint) :
    (e.call W sodium message key output outputWritten error).result =
      saltSealBase64Keylen W sodium message (key.map CString.bytes) output outputWritten error ∧
    (e.zeroes = false →
      (e.call W sodium message key output outputWritten error).message = message) ∧
    (e.zeroes = true → ∀ bytes, message = some bytes →
      (e.call W sodium message key output outputWritten error).message =
        some (if 1 ≤ bytes.length ∧ bytes.length ≤ saltMaxMessageLen then
          List.replicate bytes.length 0 else bytes)) ∧
    (message = none →
      (e.call W sodium message key output outputWritten error).message = none) := by
  cases e with
  | plain =>
    exact ⟨measured_key .., fun _ => rfl, fun h => Bool.noConfusion h, fun h => h⟩
  | keylen => exact ⟨rfl, fun _ => rfl, fun h => Bool.noConfusion h, fun h => h⟩
  | zeroing =>
    refine ⟨(zeroingKeylen_result ..).trans (measured_key ..), fun h => Bool.noConfusion h,
      fun _ bytes h => ?_, fun h => ?_⟩
    · exact (zeroingKeylen_message ..).trans (by rw [h]; rfl)
    · exact (zeroingKeylen_message ..).trans (by rw [h]; rfl)
  | zeroingKeylen =>
    refine ⟨zeroingKeylen_result .., fun h => Bool.noConfusion h, fun _ bytes h => ?_, fun h => ?_⟩
    · exact (zeroingKeylen_message ..).trans (by rw [h]; rfl)
    · exact (zeroingKeylen_message ..).trans (by rw [h]; rfl)

end Agree

end Salt.EntryPoints
