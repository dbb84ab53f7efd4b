import Salt.KeyLoading

set_option autoImplicit false

/-!
# Loading the plaintext
-/
namespace Salt.PlaintextLoading
open ByteStrings BlockHeap TracedState Sealing Framing Tracking ReportingCorrect Ownership
  ReadCorrect KeyLoading

section Plaintext
variable {w₀ w : World} {v : View}

def plaintextSource (v : View) : Bytes :=
  if v.state.plaintextFromStdin then v.input.rest
  else v.positionals.getD (v.state.plaintextArg.getD 0) []

def Copies (w : World) (v : View) : Bool :=
  !v.state.plaintextFromStdin && decide ((plaintextSource v).length ≤ saltGithubSecretMaxValueLen) &&
    (w.env.alloc w.clock).isSome

def positionalsAfter (w : World) (v : View) : List Bytes :=
  if Copies w v then scrubbed (v.state.plaintextArg.getD 0) (plaintextSource v).length v.positionals
  else v.positionals

/-- The message is a live block that holds the plaintext. -/
structure MessageStored (v : View) (plaintext : Bytes) (positionals : List Bytes) (v' : View) :
    Prop where
  state : ∃ stdinPlaintext copy cap id, v'.state = { v.state with
      stdinPlaintext := stdinPlaintext
      argvPlaintextCopy := copy
      argvPlaintextCap := cap
      message := some id
      messageLen := plaintext.length } ∧
    messageBytes (bytesAt v'.heap id) plaintext.length = plaintext ∧ id < v'.heap.length
  tidy : Tidy v'.state v'.heap
  positionals : v'.positionals = positionals
  err : v'.err = v.err
  undefined : v'.undefined = v.undefined

theorem messageBytes_append (plaintext rest : Bytes) :
    messageBytes (plaintext ++ rest) plaintext.length = plaintext := by
  have hzero : plaintext.length - (plaintext ++ rest).length = 0 := by simp
  rw [messageBytes, List.take_left, hzero]
  exact List.append_nil _

theorem plaintext_size (W : SizeWidth) : saltGithubSecretMaxValueLen ≤ sizeMax W - 1 := by
  have := modulus_large W
  rw [sizeMax, show saltGithubSecretMaxValueLen = 49152 from rfl]
  omega

theorem loadPlaintextFromStdin_stored (h : Tracks w₀ v w) (ht : Tidy v.state v.heap)
    (hslot : v.state.stdinPlaintext = none) :
    Ends loadPlaintextFromStdin w fun rc w' =>
      (rc = .ok ∧ v.input.rest.length ≤ saltGithubSecretMaxValueLen ∧
        ∃ v', MessageStored v v.input.rest v.positionals v' ∧ Tracks w₀ v' w') ∨
      (Failed v.err v.undefined v.positionals rc w' ∧
        (FaultFree w₀ → saltGithubSecretMaxValueLen < v.input.rest.length)) := by
  refine (cliInputReadStreamLimited_answered h (plaintext_size _)).bind fun r w₁ hr => ?_
  rcases hr with ⟨tail, input, rfl, hlen, h₁⟩ | ⟨hrc, hnone, hfault, message, heap, input, hm, hheap, h₁⟩
  · refine (modifyState_tracks h₁ _).bind fun _ w₂ h₂ => .ret (.inl ⟨rfl, ?_, _, ?_, h₂⟩)
    · rw [List.length_append, List.length_cons] at hlen
      omega
    · refine ⟨⟨_, _, _, v.heap.length, rfl, ?_, by simp⟩, ?_, rfl, rfl, rfl⟩
      · rw [bytesAt_append]
        exact messageBytes_append v.input.rest (0 :: tail)
      · exact ht.adopt (o := .stdinPlaintext) hslot hlen (Nat.succ_pos _)
          (funext fun o => by cases o <;> rfl) (funext fun o => by cases o <;> rfl) rfl rfl rfl
  · obtain ⟨rc, result⟩ := r
    obtain rfl : result = none := hnone
    exact (refused_reported h₁ ht hrc hm hheap).mono fun _ _ hf => .inr ⟨hf, hfault⟩

theorem saltCliLoadPlaintextFromArgv_stored (h : Tracks w₀ v w) (ht : Tidy v.state v.heap)
    (hslot : v.state.argvPlaintextCopy = none) {i : ℕ} {plaintext : Bytes}
    (hplain : v.positionals.getD i [] = plaintext) (hnul : 0 ∉ plaintext) :
    Ends (saltCliLoadPlaintextFromArgv i) w fun rc w' =>
      (rc = .ok ∧ plaintext.length ≤ saltGithubSecretMaxValueLen ∧
        (w.env.alloc w.clock).isSome = true ∧
        ∃ v', MessageStored v plaintext (scrubbed i plaintext.length v.positionals) v' ∧
          Tracks w₀ v' w') ∨
      (Failed v.err v.undefined v.positionals rc w' ∧
        (saltGithubSecretMaxValueLen < plaintext.length ∨ w.env.alloc w.clock = none)) := by
  refine Ends.bind_read (a := plaintext ++ [0]) (by rw [← hplain, ← h.positionals]; rfl) ?_
  refine Ends.bind_read (a := w₀.env.width) (by rw [← h.env]) ?_
  rw [cliBoundedStrlen_terminated hnul]
  refine .ite (fun hlong => ?_) fun hshort => ?_
  · refine (saltCliReportStreamStatus_failed h true (by decide)
      ⟨ascii "plaintext exceeds maximum length (" ++ decimal saltGithubSecretMaxValueLen ++
        ascii " bytes; GitHub Actions caps secret values at 48 KB)",
        by decide, .inl (by decide)⟩ ht).mono fun _ _ hf => .inr ⟨hf, .inl ?_⟩
    omega
  have hlen : min plaintext.length (saltGithubSecretMaxValueLen + 1) = plaintext.length := by omega
  have hsize := plaintext_size w₀.env.width
  rw [hlen]
  refine .ite (fun hover => absurd hover (by omega)) fun _ => ?_
  have hcap := modifyState_tracks h fun s => { s with argvPlaintextCap := plaintext.length + 1 }
  refine Ends.bind (R := fun _ w' => w'.env.alloc w'.clock = w.env.alloc w.clock ∧
    Tracks w₀ { v with state := { v.state with argvPlaintextCap := plaintext.length + 1 } } w')
    ⟨rfl, hcap⟩ ?_
  rintro _ w₃ ⟨halloc, h₃⟩
  refine (saltCliAllocImpl_tracks h₃ _).bind fun copy w₄ hcopy => ?_
  rw [halloc] at hcopy
  rcases hcopy with ⟨rfl, hnone, h₄⟩ | ⟨content, rfl, hsome, h₄⟩
  · have ht₄ : Tidy { v.state with argvPlaintextCap := plaintext.length + 1 } v.heap :=
      ht.congr rfl (fun o ho => by cases o <;> first | rfl | exact absurd hslot ho) rfl rfl rfl
    exact (saltCliReportStreamStatus_failed h₄ true (by decide)
      ⟨ascii "failed to allocate plaintext buffer", by decide, .inr (by decide)⟩ ht₄).mono
      fun _ _ hf => .inr ⟨hf, .inr hnone⟩
  refine (modifyState_tracks h₄ _).bind fun _ w₅ h₅ => ?_
  refine (sodiumMlock_tracks h₅ _).bind fun _ w₆ h₆ => ?_
  refine (editBlock_last h₆ rfl (copyString_eq plaintext [] (fresh_length _ _))).bind
    fun _ w₇ h₇ => ?_
  refine (scrubPositional_tracks h₇ i plaintext.length).bind fun _ w₈ h₈ => ?_
  refine (modifyState_tracks h₈ _).bind fun _ w₉ h₉ =>
    .ret (.inl ⟨rfl, by omega, by rw [hsome]; rfl, _, ?_, h₉⟩)
  refine ⟨⟨_, _, _, v.heap.length, rfl, ?_, by simp⟩, ?_, rfl, rfl, rfl⟩
  · rw [bytesAt_append]
    exact messageBytes_append plaintext [0]
  · exact ht.adopt (o := .argvPlaintextCopy) hslot (by simp) (Nat.succ_pos _)
      (funext fun o => by cases o <;> rfl) (funext fun o => by cases o <;> rfl) rfl rfl rfl

theorem loadPlaintextSource_stored (h : Tracks w₀ v w) (ht : Tidy v.state v.heap)
    (hstdin : v.state.stdinPlaintext = none) (hcopy : v.state.argvPlaintextCopy = none)
    (hnul : v.state.plaintextFromStdin = false → 0 ∉ plaintextSource v) :
    Ends loadPlaintextSource w fun rc w' =>
      (rc = .ok ∧ (plaintextSource v).length ≤ saltGithubSecretMaxValueLen ∧
        ∃ v', MessageStored v (plaintextSource v) (positionalsAfter w v) v' ∧ Tracks w₀ v' w') ∨
      (Failed v.err v.undefined (positionalsAfter w v) rc w' ∧
        (FaultFree w₀ → saltGithubSecretMaxValueLen < (plaintextSource v).length)) := by
  refine Ends.bind_read h.state ?_
  refine .ite (fun hk => ?_) fun hk => ?_
  · rw [show plaintextSource v = v.input.rest by simp [plaintextSource, hk],
      show positionalsAfter w v = v.positionals by simp [positionalsAfter, Copies, hk]]
    exact loadPlaintextFromStdin_stored h ht hstdin
  · rw [Bool.not_eq_true] at hk
    refine (saltCliLoadPlaintextFromArgv_stored h ht hcopy (by simp [plaintextSource, hk])
      (hnul hk)).mono fun rc w' hend => ?_
    rcases hend with ⟨rfl, hle, halloc, hstored⟩ | ⟨hf, hwhy⟩
    · have hcopies : Copies w v = true := by simp [Copies, hk, hle, halloc]
      rw [positionalsAfter, if_pos hcopies]
      exact .inl ⟨rfl, hle, hstored⟩
    · have hcopies : ¬ Copies w v = true := by
        rcases hwhy with hlong | hnone
        · simp [Copies, Nat.not_le.2 hlong]
        · simp [Copies, hnone]
      rw [positionalsAfter, if_neg hcopies]
      refine .inr ⟨hf, fun h₀ => hwhy.resolve_right fun hnone => ?_⟩
      exact h.no_fault hnone h₀

/-- The plaintext stage: the plaintext is loaded whole, or there is one diagnostic. -/
theorem saltCliInputLoadPlaintext_stored (h : Tracks w₀ v w) (ht : Tidy v.state v.heap)
    (hstdin : v.state.stdinPlaintext = none) (hcopy : v.state.argvPlaintextCopy = none)
    (hnul : v.state.plaintextFromStdin = false → 0 ∉ plaintextSource v) :
    Ends saltCliInputLoadPlaintext w fun rc w' =>
      (rc = .ok ∧ 1 ≤ (plaintextSource v).length ∧
        (plaintextSource v).length ≤ saltGithubSecretMaxValueLen ∧
        ∃ v', MessageStored v (plaintextSource v) (positionalsAfter w v) v' ∧ Tracks w₀ v' w') ∨
      (Failed v.err v.undefined (positionalsAfter w v) rc w' ∧ (FaultFree w₀ →
        ¬ (1 ≤ (plaintextSource v).length ∧
          (plaintextSource v).length ≤ saltGithubSecretMaxValueLen))) := by
  refine (loadPlaintextSource_stored h ht hstdin hcopy hnul).bind fun rc w₁ hloaded => ?_
  rcases hloaded with ⟨rfl, hle, v', hstored, h₁⟩ | ⟨hf, hfault⟩
  · refine (reportIfInterrupted_failed h₁ hstored.tidy).bind fun rc w₂ hpoll => ?_
    rw [hstored.err, hstored.undefined, hstored.positionals] at hpoll
    rcases hpoll with ⟨rfl, h₂⟩ | ⟨hf, hfault⟩
    · refine (getState_tracks h₂).bind fun s w₃ ⟨hs, h₃⟩ => ?_
      subst hs
      have hmessage : v'.state.messageLen = (plaintextSource v).length := by
        obtain ⟨_, _, _, id, hstate, -, -⟩ := hstored.state
        rw [hstate]
      rw [hmessage]
      refine .ite (fun hzero => ?_) fun hpos => ?_
      · refine (saltCliReportStreamStatus_failed h₃ true (by decide)
          ⟨ascii "plaintext must not be empty", by decide, .inl (by decide)⟩ hstored.tidy).mono
          fun _ _ hf => .inr ⟨?_, fun _ hcond => by omega⟩
        rw [← hstored.err, ← hstored.undefined, ← hstored.positionals]
        exact hf
      · exact .ret (.inl ⟨rfl, by omega, hle, v', hstored, h₃⟩)
    · rw [if_pos hf.ne_ok]
      exact .ret (.inr ⟨hf, fun h₀ => absurd h₀ hfault⟩)
  · rw [if_pos hf.ne_ok]
    refine .ret (.inr ⟨hf, fun h₀ hcond => ?_⟩)
    have := hfault h₀
    omega

end Plaintext

end Salt.PlaintextLoading
