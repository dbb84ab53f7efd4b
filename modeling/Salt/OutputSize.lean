import Salt.Orchestration
import Salt.SealingCorrect

set_option autoImplicit false

/-!
# The size of the output buffer

The sizing function returns the length of the encoded ciphertext whenever that
length is a value of `size_t`, and `SIZE_MAX` otherwise. The preparation of the
output looks for a size of zero instead, which is never returned.
-/
namespace Salt.OutputSize
open ByteStrings WrappingArithmetic TracedState Sealing SealingCorrect

def exactOutputLen (messageLen : ℕ) : ℕ := 4 * ((messageLen + cryptoBoxSealBytes + 2) / 3) + 1

theorem exactOutputLen_le_iff (W : SizeWidth) (messageLen : ℕ) :
    exactOutputLen messageLen ≤ sizeMax W ↔
      messageLen + cryptoBoxSealBytes ≤ (sizeMax W - 1) / 4 * 3 := by
  unfold exactOutputLen sizeMax
  cases W <;> simp only [SizeWidth.modulus] <;> omega

theorem exactOutputLen_ne_sizeMax (W : SizeWidth) (messageLen : ℕ) :
    exactOutputLen messageLen ≠ sizeMax W := by
  unfold exactOutputLen sizeMax
  cases W <;> simp only [SizeWidth.modulus] <;> omega

theorem requiredOutputLen_exact {W : SizeWidth} {messageLen : ℕ}
    (h : exactOutputLen messageLen ≤ sizeMax W) :
    Yields W.modulus (requiredOutputLen W messageLen) (exactOutputLen messageLen) := by
  have hW := modulus_large W
  rw [sizeMax] at h
  rw [exactOutputLen] at h ⊢
  exact requiredOutputLen_yields (by omega)

theorem saltRequiredBase64OutputLen_of_le {W : SizeWidth} {messageLen : ℕ}
    (h : exactOutputLen messageLen ≤ sizeMax W) :
    saltRequiredBase64OutputLen W messageLen = exactOutputLen messageLen :=
  (requiredOutputLen_exact h).value

theorem saltRequiredBase64OutputLen_of_gt {W : SizeWidth} {messageLen : ℕ}
    (h : sizeMax W < exactOutputLen messageLen) :
    saltRequiredBase64OutputLen W messageLen = sizeMax W := by
  have hW := modulus_large W
  have hmax : sizeMax W = W.modulus - 1 := rfl
  have hs : cryptoBoxSealBytes = 48 := rfl
  have hguard := (exactOutputLen_le_iff W messageLen).not.1 (by omega)
  have hmaxLen : Yields W.modulus (sub W.modulus (sizeMax W) cryptoBoxSealBytes)
      (sizeMax W - cryptoBoxSealBytes) := yields_sub (by omega) (by omega)
  have hmaxEncoded : Yields W.modulus (sub W.modulus (sizeMax W) 1) (sizeMax W - 1) :=
    yields_sub (by omega) (by omega)
  have hmaxSealed : Yields W.modulus (mul W.modulus ((sizeMax W - 1) / 4) 3)
      ((sizeMax W - 1) / 4 * 3) := yields_mul (by omega)
  rw [saltRequiredBase64OutputLen, requiredOutputLen, hmaxLen.bind_value]
  split_ifs with hadd
  · rfl
  · -- the sum does not wrap behind the first guard, so the second one sees it
    have hsealed : Yields W.modulus (add W.modulus messageLen cryptoBoxSealBytes)
        (messageLen + cryptoBoxSealBytes) := yields_add (by omega)
    rw [hsealed.bind_value, hmaxEncoded.bind_value, hmaxSealed.bind_value, if_pos (by omega)]
    rfl

/-- The sizing function is exact up to the machine limit. -/
theorem saltRequiredBase64OutputLen_exact (W : SizeWidth) (messageLen : ℕ) :
    (exactOutputLen messageLen ≤ sizeMax W →
        saltRequiredBase64OutputLen W messageLen = exactOutputLen messageLen ∧
          ∀ n ∈ (requiredOutputLen W messageLen).steps, 0 ≤ n ∧ n < W.modulus) ∧
      (sizeMax W < exactOutputLen messageLen →
        saltRequiredBase64OutputLen W messageLen = sizeMax W) ∧
      exactOutputLen messageLen ≠ sizeMax W :=
  ⟨fun h => ⟨saltRequiredBase64OutputLen_of_le h, (requiredOutputLen_exact h).unwrapped⟩,
    saltRequiredBase64OutputLen_of_gt, exactOutputLen_ne_sizeMax W messageLen⟩

theorem saltRequiredBase64OutputLen_pos (W : SizeWidth) (messageLen : ℕ) :
    0 < saltRequiredBase64OutputLen W messageLen := by
  rcases le_or_gt (exactOutputLen messageLen) (sizeMax W) with h | h
  · rw [saltRequiredBase64OutputLen_of_le h]
    exact Nat.succ_pos _
  · rw [saltRequiredBase64OutputLen_of_gt h]
    have := modulus_large W
    rw [sizeMax]
    omega

def SameCalls (w w' : World) : Prop := w'.calls = w.calls

def Uncalled {α : Type} (m : Cli α) : Prop := Through SameCalls m

theorem Uncalled.ret {α : Type} (a : α) : Uncalled (pure a : Cli α) :=
  Through.ret (R := SameCalls) (fun _ => rfl) a

theorem Uncalled.bind {α β : Type} {m : Cli α} {f : α → Cli β} (hm : Uncalled m)
    (hf : ∀ a, Uncalled (f a)) : Uncalled (m >>= f) :=
  Through.bind (fun _ _ _ h h' => h'.trans h) hm hf

theorem Uncalled.ite {α : Type} {c : Prop} [Decidable c] {m n : Cli α} (hm : Uncalled m)
    (hn : Uncalled n) : Uncalled (if c then m else n) := by
  split_ifs
  · exact hm
  · exact hn

theorem Uncalled.step {α : Type} {f : World → α × World} (h : ∀ w, (f w).2.calls = w.calls) :
    Uncalled (Traced.step f) := Through.step h

theorem Uncalled.read {α : Type} (f : World → α) : Uncalled (Traced.read f) :=
  Through.read (R := SameCalls) (fun _ => rfl) f

theorem Uncalled.calls_eq {α : Type} {m : Cli α} (h : Uncalled m) (w : World) :
    (m w).final.calls = w.calls := (h w).1

theorem saltCliSetError_uncalled (useError : Bool) (message : Bytes) (rc : SaltStatus) :
    Uncalled (saltCliSetError useError message rc) :=
  Uncalled.bind (.step fun _ => rfl) fun _ => .ret rc

theorem vfprintf_uncalled (sink : Sink) (data : Bytes) : Uncalled (vfprintf sink data) :=
  .step fun _ => by cases sink <;> rfl

theorem fflush_uncalled (sink : Sink) : Uncalled (fflush sink) :=
  .step fun _ => by cases sink <;> rfl

theorem saltCliFlushStream_uncalled (stream : Sink) (useError : Bool) (message : Bytes) :
    Uncalled (saltCliFlushStream stream useError message) :=
  (fflush_uncalled stream).bind fun _ => .ite (saltCliSetError_uncalled _ _ _) (.ret _)

theorem saltCliReportStreamStatus_uncalled (stream : Sink) (useError : Bool) (rc : SaltStatus)
    (text : Bytes) : Uncalled (saltCliReportStreamStatus stream useError rc text) :=
  (vfprintf_uncalled stream text).bind fun _ => .ite (saltCliSetError_uncalled _ _ _)
    ((saltCliFlushStream_uncalled _ _ _).bind fun _ => .ite (.ret _) (.ret _))

theorem saltCliReportStateError_uncalled (rc : SaltStatus) :
    Uncalled (saltCliReportStateError rc) :=
  (Uncalled.read _).bind fun _ => saltCliReportStreamStatus_uncalled _ _ _ _

theorem checkSealed_uncalled : Uncalled checkSealed := by
  have hpoll : Uncalled saltCliCheckInterrupted :=
    (Uncalled.step fun _ => rfl).bind fun _ => .ite (saltCliSetError_uncalled _ _ _) (.ret _)
  refine hpoll.bind fun rc => (Uncalled.step fun _ => rfl).bind fun _ =>
    .ite (saltCliReportStateError_uncalled rc) ((Uncalled.read _).bind fun s => ?_)
  exact .ite (saltCliReportStreamStatus_uncalled _ _ _ _) (.ret _)

theorem saltCliAllocImpl_calls (size : ℕ) (w : World) :
    (saltCliAllocImpl size w).final.calls = w.calls ++ [.alloc size] := by
  unfold saltCliAllocImpl atomic
  simp only [step_final]
  cases w.deliver.env.alloc w.deliver.clock with
  | none => rfl
  | some content => rfl

theorem sealIntoOutput_calls (output size : ℕ) (w : World) :
    (sealIntoOutput output size w).final.calls =
      w.calls ++ [.mlock size, .seal w.state.messageLen] := by
  have hend (rc : SaltStatus) :
      Uncalled (if rc ≠ .ok then saltCliReportStateError rc else checkSealed) :=
    .ite (saltCliReportStateError_uncalled rc) checkSealed_uncalled
  unfold sealIntoOutput
  simp only [bind_final, (hend _).calls_eq]
  exact List.append_assoc _ _ _

theorem resolveEffectiveKeyId_messageLen (s : CliState) :
    (resolveEffectiveKeyId s).messageLen = s.messageLen := by
  unfold resolveEffectiveKeyId
  split
  · split_ifs <;> rfl
  · split_ifs <;> rfl

/-- The calls `m` makes from `w`, of those that are recorded. -/
def callsOf {α : Type} (m : Cli α) (w : World) : List LibraryCall :=
  (m w).final.calls.drop w.calls.length

/-- The preparation asks for a buffer of the size computed, once and on every input. -/
theorem saltCliPrepareOutput_calls (w : World) :
    ∃ rest, callsOf saltCliPrepareOutput w =
        .alloc (saltRequiredBase64OutputLen w.env.width w.state.messageLen) :: rest ∧
      ∀ size, .alloc size ∉ rest := by
  set size := saltRequiredBase64OutputLen w.env.width w.state.messageLen with hsize
  have hresolved : saltRequiredBase64OutputLen w.env.width
      (resolveEffectiveKeyId w.state).messageLen = size := by
    rw [resolveEffectiveKeyId_messageLen]
  have hpos : size ≠ 0 := (saltRequiredBase64OutputLen_pos _ _).ne'
  let w₁ : World := { w with state := resolveEffectiveKeyId w.state }
  have hend : Ends saltCliPrepareOutput w fun _ w' =>
      ∃ rest, w'.calls = w.calls ++ .alloc size :: rest ∧ ∀ n, .alloc n ∉ rest := by
    refine Ends.bind (R := fun _ w' => w' = w₁) rfl ?_
    rintro _ _ rfl
    refine Ends.bind (R := fun n w' => n = size ∧ w' = w₁) ⟨hresolved, rfl⟩ ?_
    rintro _ _ ⟨rfl, rfl⟩
    have halloc : Ends (saltCliAllocImpl size) w₁ fun _ w' => w'.calls = w.calls ++ [.alloc size] :=
      saltCliAllocImpl_calls size w₁
    refine .ite (fun h => absurd h hpos) fun _ => halloc.bind ?_
    rintro (_ | output) w' hcalls
    · refine ⟨[], ?_, fun _ => List.not_mem_nil⟩
      rw [(saltCliReportStreamStatus_uncalled _ _ _ _).calls_eq, hcalls]
    · refine ⟨[.mlock size, .seal w'.state.messageLen], ?_, fun n => by simp⟩
      rw [sealIntoOutput_calls, hcalls, List.append_assoc]
      rfl
  obtain ⟨rest, hrest, hnone⟩ := hend
  exact ⟨rest, by rw [callsOf, hrest, List.drop_left], hnone⟩

/-- A size that is no `size_t` is refused by the guard, and a buffer has the exact size. -/
structure HonoursSentinel (w : World) : Prop where
  refused : sizeMax w.env.width < exactOutputLen w.state.messageLen →
    (saltCliPrepareOutput w).value = .errInternal ∧ callsOf saltCliPrepareOutput w = []
  exact : ∀ size, .alloc size ∈ callsOf saltCliPrepareOutput w →
    size = exactOutputLen w.state.messageLen

theorem not_honoursSentinel_of_gt {w : World}
    (h : sizeMax w.env.width < exactOutputLen w.state.messageLen) : ¬ HonoursSentinel w := by
  intro hhonours
  obtain ⟨rest, hcalls, -⟩ := saltCliPrepareOutput_calls w
  rw [(hhonours.refused h).2] at hcalls
  exact List.cons_ne_nil _ _ hcalls.symm

/-- The sentinel is honoured exactly where the sizing function has no use for it. -/
theorem saltCliPrepareOutput_honoursSentinel_iff (w : World) :
    HonoursSentinel w ↔
      w.state.messageLen + cryptoBoxSealBytes ≤ (sizeMax w.env.width - 1) / 4 * 3 := by
  rw [← exactOutputLen_le_iff]
  constructor
  · intro hhonours
    by_contra hgt
    exact not_honoursSentinel_of_gt (by omega) hhonours
  · intro hle
    obtain ⟨rest, hcalls, hnone⟩ := saltCliPrepareOutput_calls w
    refine ⟨fun hgt => absurd hle (by omega), fun size hsize => ?_⟩
    rw [hcalls, saltRequiredBase64OutputLen_of_le hle] at hsize
    rcases List.mem_cons.1 hsize with hsize | hsize
    · exact LibraryCall.alloc.inj hsize
    · exact absurd hsize (hnone size)

/-- A process with 32 bit sizes that has loaded a message of this length. -/
def loadedWorld (messageLen : ℕ) : World :=
  let env := { calmEnv referenceSodium with width := .w32 }
  { freshWorld env [] [] with
    heap := [⟨messageLen, List.replicate messageLen 65, []⟩]
    state := { zeroState with message := some 0, messageLen := messageLen } }

/-- The shortest message whose encoded ciphertext has no length in 32 bits. -/
theorem saltCliPrepareOutput_sentinel_ignored : ¬ HonoursSentinel (loadedWorld 3221225422) :=
  not_honoursSentinel_of_gt (by
    change 2 ^ 32 - 1 < 4 * ((3221225422 + 48 + 2) / 3) + 1
    decide)

end Salt.OutputSize
