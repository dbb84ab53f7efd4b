import Salt.Interruption
import Salt.KeyBuffering

set_option autoImplicit false

/-!
# Secrets in memory while a signal can kill the process

The handlers are restored in front of the wipe, so at the cleanup label the
buffers are still full when the original dispositions come back. That is so in
every run that gets the text of the key into a buffer. What counts as bytes
derived from the key or the plaintext is a parameter: a test on the content of
a buffer that no run of zeros passes.
-/
namespace Salt.SecretsWindow
open ByteStrings BlockHeap TracedState Sealing SealingCorrect StreamFacts Framing Tracking
  Ownership RunCorrect HandlerSpan Interruption BoundedReader EndToEnd HeldBuffers KeyBuffering Trimming

structure Clear (Secret : Bytes → Prop) (w : World) : Prop where
  blocks : ∀ o id, held w.state o = some id → ¬ Secret (bytesAt w.heap id)
  parsedKeyB64 : ¬ Secret w.state.parsedKeyB64

/-- The disposition in force for one of the signals is the one in force in `w`. -/
def Exposed (w t : World) : Prop := t.sigint = w.sigint ∨ t.sigterm = w.sigterm

instance (w t : World) : Decidable (Exposed w t) := inferInstanceAs (Decidable (_ ∨ _))

/-- Each buffer is as it was in `c`, or zero, or given up. -/
structure Fading (c t : World) : Prop where
  owners : ∀ o id, held t.state o = some id → held c.state o = some id
  length : ∀ id, (bytesAt t.heap id).length = (bytesAt c.heap id).length
  bytes : ∀ id, bytesAt t.heap id = bytesAt c.heap id ∨ ∃ n, bytesAt t.heap id = List.replicate n 0
  parsedKeyB64 : t.state.parsedKeyB64 = c.state.parsedKeyB64 ∨
    ∃ n, t.state.parsedKeyB64 = List.replicate n 0

def Fades {α : Type} (c : World) (m : Cli α) : Prop := Through (fun s t => Fading c s → Fading c t) m

section Fade
variable {α β : Type} {c s t : World} {Secret : Bytes → Prop}

theorem Fading.refl (c : World) : Fading c c :=
  ⟨fun _ _ h => h, fun _ => rfl, fun _ => .inl rfl, .inl rfl⟩

theorem Fading.clear (h : Fading c t) (hzero : ∀ n, ¬ Secret (List.replicate n 0))
    (hclear : Clear Secret c) : Clear Secret t where
  blocks o id ho := by
    rcases h.bytes id with hsame | ⟨n, hn⟩
    · rw [hsame]
      exact hclear.blocks o id (h.owners o id ho)
    · rw [hn]
      exact hzero n
  parsedKeyB64 := by
    rcases h.parsedKeyB64 with hsame | ⟨n, hn⟩
    · rw [hsame]
      exact hclear.parsedKeyB64
    · rw [hn]
      exact hzero n

theorem Fades.ret (a : α) : Fades c (pure a : Cli α) := Through.ret (fun _ h => h) a

theorem Fades.bind {m : Cli α} {f : α → Cli β} (hm : Fades c m) (hf : ∀ a, Fades c (f a)) :
    Fades c (m >>= f) :=
  Through.bind (R := fun s t => Fading c s → Fading c t) (fun _ _ _ h h' hs => h' (h hs)) hm hf

theorem Fades.ite {p : Prop} [Decidable p] {m n : Cli α} (hm : Fades c m) (hn : Fades c n) :
    Fades c (if p then m else n) := by
  split_ifs <;> assumption

theorem bytesAt_wipe (heap : Heap) (id i len : ℕ) (hlen : (bytesAt heap id).length = len) :
    bytesAt (heap.modify id (Block.wipe len)) i =
      if id = i then List.replicate len 0 else bytesAt heap i := by
  rw [bytesAt_modify]
  split_ifs with hi
  · subst hi
    unfold bytesAt at hlen
    cases hb : heap[id]? with
    | none =>
      rw [hb] at hlen
      subst hlen
      rfl
    | some b =>
      rw [hb] at hlen
      exact congrArg Block.bytes (wipe_all hlen)
  · rfl

theorem bytesAt_free (heap : Heap) (id i : ℕ) :
    bytesAt (heap.modify id Block.free) i = bytesAt heap i := by
  rw [bytesAt_modify]
  split_ifs
  · rfl
  · rfl

theorem Fading.wiped {id len : ℕ} (h : Fading c s) (hlen : (bytesAt c.heap id).length = len)
    (hstate : t.state = s.state) (hheap : t.heap = s.heap.modify id (Block.wipe len)) :
    Fading c t where
  owners o i ho := h.owners o i (hstate ▸ ho)
  length i := by
    rw [hheap, bytesAt_wipe s.heap id i len ((h.length id).trans hlen)]
    split_ifs with hi
    · rw [List.length_replicate, ← hlen, hi]
    · exact h.length i
  bytes i := by
    rw [hheap, bytesAt_wipe s.heap id i len ((h.length id).trans hlen)]
    split_ifs
    · exact .inr ⟨len, rfl⟩
    · exact h.bytes i
  parsedKeyB64 := hstate ▸ h.parsedKeyB64

theorem Fading.kept (h : Fading c s) (hheld : held t.state = held s.state)
    (hkey : t.state.parsedKeyB64 = s.state.parsedKeyB64)
    (hbytes : ∀ i, bytesAt t.heap i = bytesAt s.heap i) : Fading c t where
  owners o i ho := h.owners o i (hheld ▸ ho)
  length i := by
    rw [hbytes]
    exact h.length i
  bytes i := by
    rw [hbytes]
    exact h.bytes i
  parsedKeyB64 := hkey ▸ h.parsedKeyB64

theorem Fading.wipedFixed (h : Fading c s) (buffer : FixedBuffer)
    (hstate : t.state = wipeFixedBuffer buffer s.state) (hheap : t.heap = s.heap) : Fading c t where
  owners o i ho := by
    rw [hstate] at ho
    exact h.owners o i (by cases buffer <;> cases o <;> exact ho)
  length i := hheap ▸ h.length i
  bytes i := hheap ▸ h.bytes i
  parsedKeyB64 := by
    rw [hstate]
    cases buffer with
    | parsedKeyB64 => exact .inr ⟨_, rfl⟩
    | parsedKeyId => exact h.parsedKeyB64
    | error => exact h.parsedKeyB64

theorem saltCliSecureFreeRegion_fades {id : Option ℕ} {len : ℕ}
    (hlen : ∀ i, id = some i → (bytesAt c.heap i).length = len) :
    Fades c (saltCliSecureFreeRegion id len) := by
  cases id with
  | none => exact .ret _
  | some id =>
    have hmunlock : Fades c (sodiumMunlock id len) :=
      Through.step fun _ h => h.wiped (hlen id rfl) rfl rfl
    have hmemzero : Fades c (sodiumMemzero id len) :=
      Through.step fun _ h => h.wiped (hlen id rfl) rfl rfl
    have hfree : Fades c (saltCliFreeImpl id) :=
      Through.step fun s h => h.kept rfl rfl (bytesAt_free s.heap id)
    exact .bind (.ite (.ret _) (hmunlock.bind fun _ => .ite hmemzero (.ret _))) fun _ => hfree

theorem unlockFixedBuffer_fades (buffer : FixedBuffer) : Fades c (unlockFixedBuffer buffer) :=
  .bind (Through.step fun _ h => h.wipedFixed buffer rfl rfl) fun _ =>
    .ite (Through.step fun _ h => h.wipedFixed buffer rfl rfl) (.ret _)

theorem unlockFixedBuffers_fades (locked : Bool) : Fades c (unlockFixedBuffers locked) :=
  .ite ((unlockFixedBuffer_fades _).bind fun _ => (unlockFixedBuffer_fades _).bind fun _ =>
    unlockFixedBuffer_fades _) (.ret _)

theorem zeroState_fades : Fades c (modifyState fun _ => zeroState) :=
  Through.step fun _ h =>
    { owners := fun o i ho => by cases o <;> cases ho
      length := h.length
      bytes := h.bytes
      parsedKeyB64 := .inr ⟨_, rfl⟩ }

theorem saltCliStateCleanup_fades (ht : Tidy c.state c.heap) (hs : Fading c s)
    (hstate : s.state = c.state) : Stays (Fading c) saltCliStateCleanup s := by
  have hlen (o : Slot) (i : ℕ) (ho : held c.state o = some i) :
      (bytesAt c.heap i).length = capacity c.state o := by
    obtain ⟨b, hb, hlive⟩ := ht.owned.live o i ho
    rw [bytesAt, hb]
    exact hlive.2.1
  have hbody : Fades c (do
      saltCliSecureFreeRegion c.state.output c.state.outputCap
      saltCliSecureFreeRegion c.state.stdinKey (saltMaxKeyInputLen + 1)
      saltCliSecureFreeRegion c.state.stdinPlaintext (saltGithubSecretMaxValueLen + 1)
      saltCliSecureFreeRegion c.state.argvPlaintextCopy c.state.argvPlaintextCap
      saltCliSecureFreeRegion c.state.trimmedKeyInput c.state.trimmedKeyInputCap
      unlockFixedBuffers c.state.fixedBuffersLocked
      modifyState fun _ => zeroState) :=
    .bind (saltCliSecureFreeRegion_fades (hlen .output)) fun _ =>
      .bind (saltCliSecureFreeRegion_fades (hlen .stdinKey)) fun _ =>
      .bind (saltCliSecureFreeRegion_fades (hlen .stdinPlaintext)) fun _ =>
      .bind (saltCliSecureFreeRegion_fades (hlen .argvPlaintextCopy)) fun _ =>
      .bind (saltCliSecureFreeRegion_fades (hlen .trimmedKeyInput)) fun _ =>
      .bind (unlockFixedBuffers_fades _) fun _ => zeroState_fades
  refine .bind (fun t ht => absurd ht List.not_mem_nil) ?_
  change Stays (Fading c) _ s
  rw [show (getState s).value = c.state from hstate]
  exact hbody.stays fun t h => h hs

theorem fades_of_idle {m : Cli α} (hm : Idle m) : Fades c m := fun s =>
  (hm.through s).imp (fun h hs => hs.kept h.held h.parsedKeyB64 fun i => by rw [h.heap])
    fun h t ht hs => hs.kept (h t ht).held (h t ht).parsedKeyB64 fun i => by rw [(h t ht).heap]

end Fade

section Run
variable {inv : Invocation} {w c t : World} {Secret : Bytes → Prop}

theorem not_exposed_of_inForce (h : HandlersInForce w t) (hint : w.sigint ≠ .saltHandler)
    (hterm : w.sigterm ≠ .saltHandler) : ¬ Exposed w t := by
  rintro (hsame | hsame)
  · exact hint (hsame.symm.trans h.sigint)
  · exact hterm (hsame.symm.trans h.sigterm)

theorem clear_zeroState (hzero : ∀ n, ¬ Secret (List.replicate n 0)) (hs : t.state = zeroState) :
    Clear Secret t where
  blocks o id ho := by
    rw [hs] at ho
    cases o <;> cases ho
  parsedKeyB64 := by
    rw [hs]
    exact hzero _

theorem saltCliStateInit_clear (hzero : ∀ n, ¬ Secret (List.replicate n 0)) (w : World) :
    Stays (Clear Secret) saltCliStateInit w := by
  have hfirst : Clear Secret (modifyState (fun _ => zeroState) w).final := clear_zeroState hzero rfl
  have hrest : Idle (do
      modifyState fun s => { s with outputMode := .text, keyFormat := .auto }
      sodiumMlock (saltMaxKeyInputLen + 1)
      sodiumMlock (saltMaxKeyIdLen + 1)
      sodiumMlock errorSize
      modifyState fun s => { s with fixedBuffersLocked := true }) :=
    .bind (modifyState_idle _ (fun _ => held_ext rfl rfl rfl rfl rfl) fun _ => rfl) fun _ =>
      (sodiumMlock_idle _).bind fun _ => (sodiumMlock_idle _).bind fun _ =>
        (sodiumMlock_idle _).bind fun _ =>
          modifyState_idle _ (fun _ => held_ext rfl rfl rfl rfl rfl) fun _ => rfl
  refine .bind (fun t ht => ?_) ((fades_of_idle hrest).stays fun t h => (h (.refl _)).clear hzero hfirst)
  obtain rfl := List.mem_singleton.1 ht
  exact hfirst

/-- Up to the cleanup label, secrets are in memory only while both handlers are in force. -/
theorem runStages_stays (hzero : ∀ n, ¬ Secret (List.replicate n 0)) (inv : Invocation) :
    Stays (fun t => Clear Secret t ∨ HandlersInForce w t) (runStages inv true)
      (saltCliStateInit w).final := by
  have hclear := (saltCliStateInit_clear hzero w).1
  have hinstall := (fades_of_idle (c := (saltCliStateInit w).final) (installStage_idle true)).stays
    fun t h => (h (.refl _)).clear hzero hclear
  refine .bind (fun t ht => .inl (hinstall.2 t ht)) ?_
  by_cases hrc : (installStage true (saltCliStateInit w).final).value = .ok
  · rw [hrc, if_neg (by decide)]
    obtain ⟨hforce, -⟩ := resetWorld_installed hrc
    refine .bind (fun t ht => .inr ?_) ?_
    · obtain rfl := List.mem_singleton.1 ht
      exact hforce
    · exact (runArguments_steady inv).stays fun t h => .inr (hforce.advances h)
  · rw [if_pos hrc]
    exact .ret (.inl hinstall.1)

theorem saltCliRestoreSignalHandlers_state (w : World) :
    Ends saltCliRestoreSignalHandlers w fun _ w' => w'.state = w.state :=
  (restoreSignalHandler_tracks (Tracks.refl w) .sigint).bind fun _ _ h₁ =>
    (restoreSignalHandler_tracks h₁ .sigterm).mono fun _ _ h₂ => h₂.state

theorem cleanupRun_fades (ht : Tidy c.state c.heap) : Stays (Fading c) (cleanupRun true) c := by
  have hrestore : Fades c saltCliRestoreSignalHandlers :=
    fades_of_idle ((restoreSignalHandler_idle .sigint).bind fun _ => restoreSignalHandler_idle .sigterm)
  have hstays := hrestore.stays (s := c) fun t h => h (.refl c)
  exact .bind hstays.2
    (saltCliStateCleanup_fades ht hstays.1 (saltCliRestoreSignalHandlers_state c))

theorem restoreSignalHandler_fails (signal : Signal) (hfail : c.env.sigaction c.clock ≠ 0) :
    Stays (fun t => t.sigint = c.sigint ∧ t.sigterm = c.sigterm) (restoreSignalHandler signal) c := by
  cases hsaved : c.saved signal with
  | none => exact .congr (restoreSignalHandler_none hsaved) (.ret ⟨rfl, rfl⟩)
  | some d =>
    have hfinal : (sigaction signal d c).final = c.deliver.tick := congrArg World.tick (if_neg hfail)
    refine .congr (restoreSignalHandler_some hsaved) (.bind (fun t ht => ?_) ?_)
    · obtain rfl : t = (sigaction signal d c).final := List.mem_singleton.1 ht
      rw [hfinal]
      exact ⟨rfl, rfl⟩
    · rw [hfinal]
      cases signal <;> exact .step ⟨rfl, rfl⟩

theorem restored_clock {signal : Signal} {d : Disposition} (hsaved : c.saved signal = some d) :
    Ends (restoreSignalHandler signal) c fun _ w' => w'.env = c.env ∧ w'.clock = c.clock + 1 := by
  refine (restoreSignalHandler_ends c signal).mono fun _ w' h => ?_
  rcases h with ⟨hnone, -⟩ | ⟨d', -, ⟨-, rfl⟩ | ⟨-, rfl⟩⟩
  · rw [hsaved] at hnone
    cases hnone
  · cases signal <;> exact ⟨rfl, rfl⟩
  · cases signal <;> exact ⟨rfl, rfl⟩

theorem restoreSignalHandler_other (c : World) :
    Ends (restoreSignalHandler .sigint) c fun _ w' =>
      w'.saved .sigterm = c.saved .sigterm ∧ w'.state = c.state ∧ w'.heap = c.heap := by
  refine (restoreSignalHandler_ends c .sigint).mono fun _ w' h => ?_
  rcases h with ⟨-, rfl⟩ | ⟨d', -, ⟨-, rfl⟩ | ⟨-, rfl⟩⟩
  · exact ⟨rfl, rfl, rfl⟩
  · exact ⟨rfl, rfl, rfl⟩
  · exact ⟨rfl, rfl, rfl⟩

/-- With neither handler restored, both stay in force to the end. -/
theorem cleanupRun_guarded (hforce : HandlersInForce w c) (hint : c.env.sigaction c.clock ≠ 0)
    (hterm : c.env.sigaction (c.clock + 1) ≠ 0) :
    Stays (fun t => t.sigint = .saltHandler ∧ t.sigterm = .saltHandler) (cleanupRun true) c := by
  obtain ⟨henv, hclock⟩ := restored_clock (c := c) (hforce.saved .sigint)
  have hfirst := restoreSignalHandler_fails .sigint hint
  have hsecond : Stays _ (restoreSignalHandler .sigterm) (restoreSignalHandler .sigint c).final :=
    restoreSignalHandler_fails .sigterm (by rw [henv, hclock]; exact hterm)
  have hguard {t : World} (h : t.sigint = c.sigint ∧ t.sigterm = c.sigterm) :
      t.sigint = .saltHandler ∧ t.sigterm = .saltHandler :=
    ⟨h.1.trans hforce.sigint, h.2.trans hforce.sigterm⟩
  have hguard₂ {t : World} (h : t.sigint = (restoreSignalHandler .sigint c).final.sigint ∧
      t.sigterm = (restoreSignalHandler .sigint c).final.sigterm) :
      t.sigint = .saltHandler ∧ t.sigterm = .saltHandler :=
    hguard ⟨h.1.trans hfirst.1.1, h.2.trans hfirst.1.2⟩
  have hrestore : Stays (fun t => t.sigint = .saltHandler ∧ t.sigterm = .saltHandler)
      saltCliRestoreSignalHandlers c :=
    .bind (fun t ht => hguard (hfirst.2 t ht))
      ⟨hguard₂ hsecond.1, fun t ht => hguard₂ (hsecond.2 t ht)⟩
  refine .bind hrestore.2 (saltCliStateCleanup_internal.steady.stays fun t h => ?_)
  exact ⟨h.sigint.trans hrestore.1.1, h.sigterm.trans hrestore.1.2⟩

theorem restoreSignalHandler_restores {signal : Signal} {d : Disposition}
    (hsaved : c.saved signal = some d) (hrestores : c.env.sigaction c.clock = 0) :
    ∃ t ∈ (restoreSignalHandler signal c).visited,
      t.disposition signal = d ∧ t.state = c.state ∧ t.heap = c.heap := by
  refine ⟨(c.deliver.setDisposition signal d).tick, ?_, by cases signal <;> rfl,
    by cases signal <;> rfl, by cases signal <;> rfl⟩
  have hfinal : (sigaction signal d c).visited = [(c.deliver.setDisposition signal d).tick] :=
    congrArg (fun u => [World.tick u]) (if_pos hrestores)
  rw [restoreSignalHandler_some hsaved, bind_visited, hfinal]
  exact List.mem_append_left _ (List.mem_singleton.2 rfl)

theorem cleanupRun_visits (ht : t ∈ (restoreSignalHandler .sigint c).visited ∨
    t ∈ (restoreSignalHandler .sigterm (restoreSignalHandler .sigint c).final).visited) :
    t ∈ (cleanupRun true c).visited :=
  List.mem_append_left _ (List.mem_append.2 ht)

/-- A handler that is restored comes back while the buffers are as they were. -/
theorem cleanupRun_restores (hforce : HandlersInForce w c)
    (hrestores : c.env.sigaction c.clock = 0 ∨ c.env.sigaction (c.clock + 1) = 0) :
    ∃ t ∈ (cleanupRun true c).visited, Exposed w t ∧ t.state = c.state ∧ t.heap = c.heap := by
  rcases hrestores with hrestores | hrestores
  · obtain ⟨t, ht, hd, hstate, hheap⟩ :=
      restoreSignalHandler_restores (hforce.saved .sigint) hrestores
    exact ⟨t, cleanupRun_visits (.inl ht), .inl hd, hstate, hheap⟩
  · obtain ⟨henv, hclock⟩ := restored_clock (c := c) (hforce.saved .sigint)
    obtain ⟨hsaved, hstate₁, hheap₁⟩ := restoreSignalHandler_other c
    rw [← hclock, ← henv] at hrestores
    obtain ⟨t, ht, hd, hstate, hheap⟩ :=
      restoreSignalHandler_restores (hsaved.trans (hforce.saved .sigterm)) hrestores
    exact ⟨t, cleanupRun_visits (.inr ht), .inr hd, hstate.trans hstate₁, hheap.trans hheap₁⟩

theorem run_visited (hshape : saltCliHasValidArgvShape inv = true) (w : World) :
    (saltCliRunWithStreamsInternal inv false true w).visited =
      (saltCliStateInit w).visited ++ ((runStages inv true (saltCliStateInit w).final).visited ++
        ((cleanupRun true (runStages inv true (saltCliStateInit w).final).final).visited ++ [])) := by
  unfold saltCliRunWithStreamsInternal
  rw [if_neg (by rw [hshape]; decide)]
  rfl

def cleanupWorld (inv : Invocation) (w : World) : World :=
  (runStages inv true (saltCliStateInit w).final).final

/-- In no state of a managed run is an original disposition in force while a buffer holds a secret. -/
def Covered (Secret : Bytes → Prop) (inv : Invocation) (w : World) : Prop :=
  ∀ t ∈ (saltCliRunWithStreamsInternal inv false true w).visited, Exposed w t → Clear Secret t

/-- Neither of the two calls that restore a handler succeeds. -/
def Unrestored (inv : Invocation) (w : World) : Prop :=
  w.env.sigaction (cleanupWorld inv w).clock ≠ 0 ∧
    w.env.sigaction ((cleanupWorld inv w).clock + 1) ≠ 0

/-- What is in the buffers at the cleanup label decides. -/
theorem covered_iff_clear (hstart : Starts inv w) (hshape : saltCliHasValidArgvShape inv = true)
    (hint : w.sigint ≠ .saltHandler) (hterm : w.sigterm ≠ .saltHandler)
    (hzero : ∀ n, ¬ Secret (List.replicate n 0)) :
    Covered Secret inv w ↔ Clear Secret (cleanupWorld inv w) ∨ Unrestored inv w := by
  set c := cleanupWorld inv w with hc
  have hstages := runStages_stays (w := w) hzero inv
  have hends : StagesEnd inv true w _ c := runStages_ends hstart
  have hcleanup : Tidy c.state c.heap := hends.tidy.1
  have henv : c.env = w.env :=
    (runStages_env inv true _).trans (saltCliStateInit_internal.advances w).env
  constructor
  · intro h
    by_contra hno
    rw [not_or, Unrestored, not_and_or, not_not, not_not, ← hc] at hno
    obtain ⟨hunclear, hrestores⟩ := hno
    have hforce : HandlersInForce w c := hstages.1.resolve_left hunclear
    rw [← henv] at hrestores
    obtain ⟨t, ht, hexposed, hstate, hheap⟩ := cleanupRun_restores hforce hrestores
    have hclear : Clear Secret t := by
      refine h t ?_ hexposed
      rw [run_visited hshape]
      simp only [List.mem_append]
      exact .inr (.inr (.inl ht))
    refine hunclear ⟨fun o id ho => ?_, ?_⟩
    · rw [← hstate] at ho
      rw [← hheap]
      exact hclear.blocks o id ho
    · rw [← hstate]
      exact hclear.parsedKeyB64
  · intro h t ht hexposed
    rw [run_visited hshape] at ht
    simp only [List.mem_append, List.not_mem_nil, or_false] at ht
    rcases ht with ht | ht | ht
    · exact (saltCliStateInit_clear hzero w).2 t ht
    · exact (hstages.2 t ht).resolve_right fun hforce => not_exposed_of_inForce hforce hint hterm hexposed
    · by_cases hclear : Clear Secret c
      · exact ((cleanupRun_fades hcleanup).2 t ht).clear hzero hclear
      · have hforce : HandlersInForce w c := hstages.1.resolve_left hclear
        have hfails := h.resolve_left hclear
        rw [Unrestored, ← hc, ← henv] at hfails
        obtain ⟨hsi, hst⟩ := (cleanupRun_guarded hforce hfails.1 hfails.2).2 t ht
        exact absurd hexposed fun hexposed => hexposed.elim
          (fun hsame => hint (hsame.symm.trans hsi)) fun hsame => hterm (hsame.symm.trans hst)

/-- The process as the loader of the key finds it: the arguments were parsed without a call, the
handlers are in force and the flag has been cleared. -/
def loadingWorld (inv : Invocation) (w : World) : World := { w with
  clock := clearingClock w + 1
  state := optionState inv
  interrupted := false
  sigint := .saltHandler
  sigterm := .saltHandler }

/-- The handlers are installed, the arguments ask for an encryption, and the text of the key gets
into a buffer. -/
structure LoadsKey (inv : Invocation) (w : World) : Prop where
  installs : Installs w
  encrypts : Encrypts inv
  buffers : Buffers (loadingWorld inv w)

structure SignalCallsSucceed (w : World) : Prop where
  sigemptyset : ∀ t, w.env.sigemptyset t = 0
  sigaction : ∀ t, w.env.sigaction t = 0

theorem SignalCallsSucceed.installs (h : SignalCallsSucceed w) : Installs w :=
  ⟨h.sigemptyset _, h.sigaction _, h.sigaction _⟩

theorem SignalCallsSucceed.not_unrestored (h : SignalCallsSucceed w) : ¬ Unrestored inv w :=
  fun hun => hun.1 (h.sigaction _)

theorem loadingWorld_buffers (hstart : Starts inv w) (hinstalls : Installs w) :
    Buffers { resetWorld true w with state := optionState inv } ↔ Buffers (loadingWorld inv w) := by
  have hok := (installStage_ok_iff w).2 hinstalls
  obtain ⟨hforce, hclock, -, henv⟩ := resetWorld_installed hok
  have hinput : (resetWorld true w).input = w.input :=
    congrArg View.input (resetWorld_starts hstart hok).view
  exact buffers_congr rfl henv hclock hinput rfl hforce.sigint hforce.sigterm

theorem bare_clear (h : Bare t) (hzero : ∀ n, ¬ Secret (List.replicate n 0)) : Clear Secret t where
  blocks o id ho := by
    rw [h.held o] at ho
    cases ho
  parsedKeyB64 := by
    obtain ⟨n, hn⟩ := h.parsedKeyB64
    rw [hn]
    exact hzero n

theorem stored_not_clear {text : Bytes} (ht : Tidy t.state t.heap) (h : Stored text t)
    (hsecret : ∀ tail, Secret (text ++ 0 :: tail)) : ¬ Clear Secret t := by
  intro hclear
  obtain ⟨id, n, tail, hb⟩ := h
  rcases ht.owned.settled id _ hb with hdisposed | ⟨o, ho⟩
  · obtain ⟨k, hevents⟩ := hdisposed
    simp at hevents
  · refine hclear.blocks o id ho ?_
    rw [bytesAt, hb]
    exact hsecret tail

theorem resetWorld_state (hstart : Starts inv w) (h : ResetWorld w t) :
    t.state = initState ∧ (∀ b ∈ t.heap, b.Disposed) ∧
      t.positionals = inv.positionals.map CString.bytes ∧ t.input = w.input := by
  have hheap : t.heap = w.heap := congrArg View.heap h.view
  rw [hheap]
  exact ⟨congrArg View.state h.view, hstart.heap,
    (congrArg View.positionals h.view).trans hstart.positionals, congrArg View.input h.view⟩

theorem cleanupWorld_eq (hinstalls : Installs w) :
    cleanupWorld inv w = (runArguments inv (resetWorld true w)).final := by
  have hok := (installStage_ok_iff w).2 hinstalls
  simp only [cleanupWorld, runStages, bind_final, hok]
  rfl

theorem cleanupWorld_clear (hstart : Starts inv w) (hzero : ∀ n, ¬ Secret (List.replicate n 0))
    (hno : ¬ LoadsKey inv w) : Clear Secret (cleanupWorld inv w) := by
  by_cases hinstalls : Installs w
  · have hreset := resetWorld_starts hstart ((installStage_ok_iff w).2 hinstalls)
    obtain ⟨hstate, hheap, hpositionals, -⟩ := resetWorld_state hstart hreset
    rw [cleanupWorld_eq hinstalls]
    refine bare_clear (runArguments_bare hstate hheap hpositionals fun h => ?_) hzero
    exact hno ⟨hinstalls, h.1, (loadingWorld_buffers hstart hinstalls).1 h.2⟩
  · have hne : (installStage true (saltCliStateInit w).final).value ≠ .ok :=
      fun hok => hinstalls ((installStage_ok_iff w).1 hok)
    have hfinal : cleanupWorld inv w = (installStage true (saltCliStateInit w).final).final := by
      simp only [cleanupWorld, runStages, bind_final, if_pos hne]
      rfl
    rw [hfinal]
    have hfades := fades_of_idle (c := (saltCliStateInit w).final) (installStage_idle true)
    exact ((hfades.stays fun t h => h (.refl _)).1).clear hzero (saltCliStateInit_clear hzero w).1

theorem cleanupWorld_stored (hstart : Starts inv w) (h : LoadsKey inv w) :
    Stored (trim (cstr (keyTextOf inv w.input.rest))) (cleanupWorld inv w) := by
  have hreset := resetWorld_starts hstart ((installStage_ok_iff w).2 h.installs)
  obtain ⟨hstate, hheap, hpositionals, hinput⟩ := resetWorld_state hstart hreset
  rw [cleanupWorld_eq h.installs, ← hinput]
  exact runArguments_stored hstate hheap hpositionals h.encrypts
    ((loadingWorld_buffers hstart h.installs).2 h.buffers)

theorem loadsKey_iff (hfree : FaultFree { w with interrupted := false }) :
    LoadsKey inv w ↔ Installs w ∧ Encrypts inv ∧
      (keyTextOf inv w.input.rest).length ≤ saltMaxKeyInputLen := by
  have hlater : w.clock ≤ (loadingWorld inv w).clock := Nat.le_add_right w.clock 7
  have hloading : FaultFree (loadingWorld inv w) :=
    ⟨fun t ht => hfree.alloc t (hlater.trans ht), fun t s ht => hfree.signals t s (hlater.trans ht),
      rfl, hfree.input, hfree.err⟩
  have hbuffers : Buffers (loadingWorld inv w) ↔
      (keyTextOf inv w.input.rest).length ≤ saltMaxKeyInputLen := buffers_iff hloading
  exact ⟨fun h => ⟨h.installs, h.encrypts, hbuffers.1 h.buffers⟩,
    fun h => ⟨h.1, h.2.1, hbuffers.2 h.2.2⟩⟩

end Run

/-- The original dispositions meet no secret in a run that gets no key text into a buffer or cannot
restore its handlers, and in no other run, whatever faults there are. Where all calls succeed, these
are the runs that ask for no encryption or have too long a key. -/
theorem saltCliRunWithStreamsInternal_exposed_iff (inv : Invocation) (w : World)
    (hstart : Starts inv w) (hshape : saltCliHasValidArgvShape inv = true)
    (hint : w.sigint ≠ .saltHandler) (hterm : w.sigterm ≠ .saltHandler) (Secret : Bytes → Prop)
    (hzero : ∀ n, ¬ Secret (List.replicate n 0)) :
    (¬ LoadsKey inv w ∨ Unrestored inv w → Covered Secret inv w) ∧
    ((∀ tail, Secret (trim (cstr (keyTextOf inv w.input.rest)) ++ 0 :: tail)) →
      (Covered Secret inv w ↔ ¬ LoadsKey inv w ∨ Unrestored inv w) ∧
      (FaultFree { w with interrupted := false } → SignalCallsSucceed w →
        (Covered Secret inv w ↔ ¬ (Encrypts inv ∧
          (keyTextOf inv w.input.rest).length ≤ saltMaxKeyInputLen)))) ∧
    (FaultFree { w with interrupted := false } → (LoadsKey inv w ↔ Installs w ∧ Encrypts inv ∧
      (keyTextOf inv w.input.rest).length ≤ saltMaxKeyInputLen)) := by
  have hiff : Covered Secret inv w ↔ Clear Secret (cleanupWorld inv w) ∨ Unrestored inv w :=
    covered_iff_clear hstart hshape hint hterm hzero
  have hclear : ¬ LoadsKey inv w ∨ Unrestored inv w → Covered Secret inv w := fun h =>
    hiff.2 (h.imp_left (cleanupWorld_clear hstart hzero))
  refine ⟨hclear, fun hsecret => ?_, loadsKey_iff⟩
  have hcovered : Covered Secret inv w ↔ ¬ LoadsKey inv w ∨ Unrestored inv w := by
    refine ⟨fun h => (hiff.1 h).imp_left fun hc hloads => ?_, hclear⟩
    have hends : StagesEnd inv true w _ (cleanupWorld inv w) := runStages_ends hstart
    exact stored_not_clear hends.tidy.1 (cleanupWorld_stored hstart hloads) hsecret hc
  refine ⟨hcovered, fun hfree hcalls => ?_⟩
  rw [hcovered, or_iff_left hcalls.not_unrestored, loadsKey_iff hfree, and_iff_right hcalls.installs]

def unrestoredWorld : World := { sampleWorld with
  env := { calmEnv referenceSodium with sigaction := fun t => if t < 6 then 0 else -1 } }

theorem unrestoredWorld_starts : Starts sampleInvocation unrestoredWorld :=
  ⟨rfl, fun _ hb => absurd hb List.not_mem_nil⟩

def NonZero (s : Bytes) : Prop := ∃ b ∈ s, b ≠ 0

theorem not_nonZero_zeros (n : ℕ) : ¬ NonZero (List.replicate n 0) := by
  rintro ⟨b, hb, hne⟩
  exact hne (List.eq_of_mem_replicate hb)

theorem sampleKey_nonZero (tail : Bytes) :
    NonZero (trim (cstr (keyTextOf sampleInvocation sampleWorld.input.rest)) ++ 0 :: tail) := by
  have hhead : trim (cstr (keyTextOf sampleInvocation sampleWorld.input.rest)) =
      104 :: sampleKeyText.bytes.tail := by decide
  exact ⟨104, by simp [hhead], by decide⟩

/-- The run of `salt -k <key> hi` is covered where the handlers stay, and not where they go. -/
theorem saltCliRunWithStreamsInternal_exposed_sample :
    Covered NonZero sampleInvocation unrestoredWorld ∧
      ¬ Covered NonZero sampleInvocation sampleWorld := by
  constructor
  · have hclock : 6 ≤ (cleanupWorld sampleInvocation unrestoredWorld).clock := by decide +kernel
    have hfails {t : ℕ} (ht : 6 ≤ t) : unrestoredWorld.env.sigaction t ≠ 0 := by
      change (if t < 6 then (0 : ℤ) else -1) ≠ 0
      rw [if_neg (by omega)]
      decide
    exact (saltCliRunWithStreamsInternal_exposed_iff sampleInvocation unrestoredWorld
      unrestoredWorld_starts (by decide) (by decide) (by decide) NonZero not_nonZero_zeros).1
      (.inr ⟨hfails hclock, hfails (by omega)⟩)
  · have hiff := ((saltCliRunWithStreamsInternal_exposed_iff sampleInvocation sampleWorld
      sampleWorld_starts (by decide) (by decide) (by decide) NonZero not_nonZero_zeros).2.1
        sampleKey_nonZero).2 (freshWorld_faultFree _ _ _) ⟨fun _ => rfl, fun _ => rfl⟩
    intro hcovered
    exact hiff.1 hcovered ⟨⟨sample_acceptable.options, rfl, sample_acceptable.admissible⟩,
      sample_acceptable.keyLength⟩

/-- With every call succeeding, the copy of the plaintext is in memory while both signals have
their original dispositions. -/
theorem saltCliRunWithStreamsInternal_exposes :
    ∃ t ∈ (saltCliRunWithStreamsInternal sampleInvocation false true sampleWorld).visited,
      Exposed sampleWorld t ∧
        t.state.argvPlaintextCopy.map (bytesAt t.heap) = some (ascii "hi" ++ [0]) := by
  decide +kernel

end Salt.SecretsWindow
