import Salt.TwoRunPipeline

set_option autoImplicit false

/-!
# Sequences of calls

A call leaves the dispositions and the saved ones as it found them, and does
what it would do as the first call of a process.
-/
namespace Salt.History
open ByteStrings BlockHeap TracedState Sealing SealingCorrect Framing HandlerSpan RunCorrect TwoRuns
  TwoRunStages TwoRunPipeline

section Handlers
variable {w w₁ w₂ : World} {n : ℕ} {inForce : Signal → Disposition}
  {saved : Signal → Option Disposition}

theorem restore_handled (h : Handled w n inForce saved w₁) {signal : Signal} {d : Disposition}
    (hsaved : saved signal = some d) :
    Ends (restoreSignalHandler signal) w₁ fun _ w₂ => ∃ inForce',
      Handled w (n + 1) inForce' (Function.update saved signal none) w₂ ∧
        (w.env.sigaction (w.clock + n) = 0 → inForce' = Function.update inForce signal d) := by
  have hcall : Ends (sigaction signal d >>= fun _ => setSaved signal none) w₁ fun _ w₂ => ∃ inForce',
      Handled w (n + 1) inForce' (Function.update saved signal none) w₂ ∧
        (w.env.sigaction (w.clock + n) = 0 → inForce' = Function.update inForce signal d) := by
    refine (h.sigaction signal d).bind fun r w₂ ⟨_, hend⟩ => ?_
    rcases hend with ⟨-, -, h₂⟩ | ⟨-, hfails, h₂⟩
    · exact ⟨_, h₂.setSaved signal none, fun _ => rfl⟩
    · exact ⟨_, h₂.setSaved signal none, fun hzero => absurd hzero hfails⟩
  have hrun := restoreSignalHandler_some ((congrFun h.saved signal).trans hsaved)
  unfold Ends at hcall ⊢
  rw [hrun]
  exact hcall

theorem cleanupRun_restored {old : Signal → Disposition} (hsaved : w.saved = fun s => some (old s)) :
    Ends (cleanupRun true) w fun _ w' => w.clock + 2 ≤ w'.clock ∧ w'.saved = (fun _ => none) ∧
      (w.env.sigaction w.clock = 0 → w.env.sigaction (w.clock + 1) = 0 → w'.disposition = old) := by
  have hrestore : Ends saltCliRestoreSignalHandlers w fun _ w' => ∃ inForce,
      Handled w 2 inForce (fun _ => none) w' ∧
        (w.env.sigaction w.clock = 0 → w.env.sigaction (w.clock + 1) = 0 → inForce = old) := by
    refine (restore_handled (.refl w) (congrFun hsaved .sigint)).bind fun _ w₁ ⟨inForce, h₁, hfirst⟩ => ?_
    have hterm : Function.update w.saved .sigint none .sigterm = some (old .sigterm) :=
      congrFun hsaved .sigterm
    refine (restore_handled h₁ hterm).mono fun _ w₂ ⟨inForce', h₂, hsecond⟩ => ⟨inForce', ?_, ?_⟩
    · have hnone : Function.update (Function.update w.saved .sigint none) .sigterm none = fun _ => none :=
        funext fun s => by cases s <;> rfl
      rwa [hnone] at h₂
    · intro hint hterm
      rw [hsecond hterm, hfirst hint]
      exact funext fun s => by cases s <;> rfl
  refine hrestore.bind fun _ w₂ ⟨inForce, h₂, hold⟩ => ?_
  have hadv : Advances w₂ (saltCliStateCleanup w₂).final := (saltCliStateCleanup_settled w₂).1.advances
  have hsame := Advances.sameHandlers hadv
  exact ⟨h₂.clock.ge.trans hadv.clock, hsame.saved.trans h₂.saved, fun hint hterm =>
    hsame.disposition.trans (h₂.inForce.trans (hold hint hterm))⟩

theorem restoreSignalHandler_clock (w : World) (signal : Signal) :
    Ends (restoreSignalHandler signal) w fun _ w' => w.clock ≤ w'.clock := by
  refine (restoreSignalHandler_ends w signal).mono fun _ w' h => ?_
  rcases h with ⟨-, rfl⟩ | ⟨d, -, ⟨-, rfl⟩ | ⟨-, rfl⟩⟩
  · exact le_refl _
  · cases signal <;> exact Nat.le_succ _
  · cases signal <;> exact Nat.le_succ _

theorem cleanupRun_clock (w : World) : Ends (cleanupRun true) w fun _ w' => w.clock ≤ w'.clock := by
  have hrestore : Ends saltCliRestoreSignalHandlers w fun _ w' => w.clock ≤ w'.clock :=
    (restoreSignalHandler_clock w .sigint).bind fun _ w₁ h₁ =>
      (restoreSignalHandler_clock w₁ .sigterm).mono fun _ _ h₂ => h₁.trans h₂
  exact hrestore.bind fun _ w₁ h₁ => h₁.trans (saltCliStateCleanup_settled w₁).1.advances.clock

theorem cleanupRun_unsaved (hsaved : w.saved = fun _ => none) :
    Ends (cleanupRun true) w fun _ w' => SameHandlers w w' := by
  have hskip {w₁ : World} (signal : Signal) (h : w₁ = w) :
      Ends (restoreSignalHandler signal) w₁ fun _ w' => w' = w := by
    subst h
    unfold Ends
    rw [restoreSignalHandler_none (congrFun hsaved signal)]
    rfl
  have hrestore : Ends saltCliRestoreSignalHandlers w fun _ w' => w' = w :=
    (hskip .sigint rfl).bind fun _ _ h₁ => hskip .sigterm h₁
  refine hrestore.bind ?_
  rintro _ _ rfl
  exact Advances.sameHandlers (saltCliStateCleanup_settled _).1.advances

structure Onward (w w' : World) : Prop where
  env : w'.env = w.env
  clock : w.clock ≤ w'.clock
  handlers : SameHandlers w w'

theorem Onward.of_advances (h : Advances w w₁) : Onward w w₁ :=
  ⟨h.env, h.clock, Advances.sameHandlers h⟩

theorem Onward.trans (h : Onward w w₁) (h' : Onward w₁ w₂) : Onward w w₂ :=
  ⟨h'.env.trans h.env, h.clock.trans h'.clock, h.handlers.trans h'.handlers⟩

theorem runBehindReset_onward (inv : Invocation) (w : World) :
    Ends (do saltCliResetInterrupted; runArguments inv) w fun _ w' => Onward w w' := by
  have hreset : Ends saltCliResetInterrupted w fun _ w' => Onward w w' :=
    ⟨rfl, Nat.le_succ _, rfl, rfl, rfl, rfl⟩
  exact hreset.bind fun _ w₁ h₁ => h₁.trans (.of_advances (runArguments_steady inv w₁).1)

theorem runStages_unmanaged (inv : Invocation) (w : World) :
    Ends (runStages inv false) w fun _ w' => Onward w w' := runBehindReset_onward inv w

theorem runStages_managed (inv : Invocation) (hsaved : w.savedSigint = none) :
    Ends (runStages inv true) w fun _ w' => w'.env = w.env ∧
      ((HandlersInForce w w' ∧ w.clock + 3 ≤ w'.clock) ∨ SameHandlers w w' ∨
        (w.env.sigaction (w.clock + 3) ≠ 0 ∧ w.clock + 3 < w'.clock)) := by
  refine (installStage_installs w).bind fun rc w₁ ⟨henv, hend⟩ =>
    .ite (fun hrc => .ret ⟨henv, ?_⟩) fun hrc => ?_
  · exact .inr ((hend.resolve_left fun h => hrc h.1).2.2 hsaved)
  · obtain ⟨-, -, hforce, hclock, -⟩ := hend.resolve_right fun h => h.1 (not_not.1 hrc)
    refine (runBehindReset_onward inv w₁).mono fun _ w₂ h₂ => ⟨h₂.env.trans henv, .inl ⟨?_, ?_⟩⟩
    · exact hforce.kept h₂.handlers
    · exact hclock.ge.trans h₂.clock

theorem saltCliStateInit_handled (w : World) :
    Ends saltCliStateInit w fun _ w' => Handled w 3 w.disposition w.saved w' := by
  have hmodify {n : ℕ} {w₁ : World} (h : Handled w n w.disposition w.saved w₁)
      (f : CliState → CliState) :
      Ends (modifyState f) w₁ fun _ w₂ => Handled w n w.disposition w.saved w₂ :=
    ⟨h.env, h.clock, h.inForce, h.saved⟩
  have hlock {n : ℕ} {w₁ : World} (h : Handled w n w.disposition w.saved w₁) (len : ℕ) :
      Ends (sodiumMlock len) w₁ fun _ w₂ => Handled w (n + 1) w.disposition w.saved w₂ :=
    ⟨h.ticks.env, h.ticks.clock, h.ticks.inForce, h.ticks.saved⟩
  refine (hmodify (.refl w) _).bind fun _ _ h => (hmodify h _).bind fun _ _ h => ?_
  refine (hlock h _).bind fun _ _ h => (hlock h _).bind fun _ _ h => (hlock h _).bind fun _ _ h => ?_
  exact hmodify h _

theorem managed_handlers (inv : Invocation) (hsaved : w.saved = fun _ => none) :
    Ends (do let rc ← runStages inv true; cleanupRun true; return rc) w fun _ w' =>
      (∀ t, w.clock + 3 ≤ t → t < w'.clock → w.env.sigaction t = 0) → SameHandlers w w' := by
  refine (runStages_managed inv (congrFun hsaved .sigint)).bind fun rc w₁ ⟨henv, hend⟩ => ?_
  have hclock := cleanupRun_clock w₁
  rcases hend with ⟨hforce, hlate⟩ | hsame | ⟨hfails, hlate⟩
  · have hsaved₁ : w₁.saved = fun s => some (w.disposition s) := funext hforce.saved
    refine (cleanupRun_restored hsaved₁).bind fun _ w₂ ⟨hclock₂, hnone, hold⟩ => .ret fun hrestores => ?_
    rw [henv] at hold
    have hd := hold (hrestores _ hlate (by omega)) (hrestores _ (by omega) (by omega))
    exact sameHandlers_of_eq hd (hnone.trans hsaved.symm)
  · exact (cleanupRun_unsaved (hsame.saved.trans hsaved)).bind fun _ w₂ h₂ => .ret fun _ => hsame.trans h₂
  · exact (cleanupRun_clock w₁).bind fun _ w₂ hclock₂ => .ret fun hrestores =>
      absurd (hrestores _ (le_refl _) (hlate.trans_le hclock₂)) hfails

/-- A run leaves the dispositions and the saved ones as they were, if the calls that restore the
handlers succeed. -/
theorem saltCliRunWithStreamsInternal_handlers (inv : Invocation) (nullStream manageSignals : Bool)
    (hsaved : w.saved = fun _ => none) :
    Ends (saltCliRunWithStreamsInternal inv nullStream manageSignals) w fun _ w' =>
      (manageSignals = true → ∀ t, w.clock + 6 ≤ t → t < w'.clock → w.env.sigaction t = 0) →
        SameHandlers w w' := by
  refine .ite (fun _ => .ret fun _ => ⟨rfl, rfl, rfl, rfl⟩) fun _ => ?_
  refine (saltCliStateInit_handled w).bind fun _ w₁ h₁ => ?_
  have hsame : SameHandlers w w₁ := h₁.sameHandlers rfl rfl
  cases manageSignals with
  | true =>
    refine (managed_handlers inv (h₁.saved.trans hsaved)).mono
      fun _ w₂ hend hrestores => hsame.trans (hend ?_)
    rw [h₁.env, h₁.clock]
    exact hrestores rfl
  | false =>
    refine (runStages_unmanaged inv w₁).bind fun rc w₂ h₂ => ?_
    have hclean : Ends (cleanupRun false) w₂ fun _ w' => SameHandlers w₂ w' :=
      Advances.sameHandlers (saltCliStateCleanup_settled w₂).1.advances
    exact hclean.bind fun _ w₃ h₃ => .ret fun _ => hsame.trans (h₂.handlers.trans h₃)

end Handlers

/-- A call of `salt_cli_run_with_streams_internal`: its arguments, the streams it is given, and what
libsodium answers during it. -/
structure Call where
  sodium : Sodium
  inv : Invocation
  nullStream : Bool
  manageSignals : Bool
  input : InStream
  out : OutStream
  err : OutStream

/-- The world in which a call begins. The heap, the state, the flag and the saved dispositions are
those the calls before it have left. -/
def Call.enter (c : Call) (w : World) : World := { w with
  env := { w.env with sodium := c.sodium }
  positionals := c.inv.positionals.map CString.bytes
  input := c.input
  out := c.out
  err := c.err }

def Call.run (c : Call) (w : World) : Run World SaltStatus :=
  saltCliRunWithStreamsInternal c.inv c.nullStream c.manageSignals (c.enter w)

def runCalls (calls : List Call) (w : World) : World := calls.foldl (fun w c => (c.run w).final) w

/-- A process that has made no call, with the dispositions of `w` and its outcomes from now on. -/
def freshProcess (w : World) : World := { freshWorld w.env [] [] with
  clock := w.clock
  sigint := w.sigint
  sigterm := w.sigterm }

/-- The `sigaction` calls of a managed run succeed, but for the two that install the handlers: these
are its fifth and sixth call into the system. -/
def RestoresSucceed (c : Call) (w : World) : Prop :=
  c.manageSignals = true → ∀ t, w.clock + 6 ≤ t → t < (c.run w).final.clock → w.env.sigaction t = 0

/-- What the runs of a call in two processes have in common before the flag is reset. -/
def history : Known := ⟨True, True, True, False⟩

section Calls
variable {w : World} {inv : Invocation}

theorem sameCommand_refl (inv : Invocation) : SameCommand inv inv := ⟨rfl, rfl, rfl, rfl, rfl⟩

theorem sameKey_of_exact {K : Known} {k k' : ℕ} {w w' : World} (h : Alike K k k' w w')
    (he : K.exact) : SameKey K.exact w w' :=
  ⟨.inl (keySourceOf_exact h he), keySourceOf_exact h⟩

theorem enter_alike (c : Call) (hsaved : w.saved = fun _ => none) :
    Alike history w.heap.length 0 (cleared (c.enter w)) (cleared (c.enter (freshProcess w))) where
  env := ⟨fun _ => rfl, rfl, rfl, rfl, fun _ => rfl, fun _ => .rfl, rfl, rfl⟩
  clock := rfl
  state := ⟨zeroState, rfl, rfl⟩
  size := ⟨0, rfl, rfl⟩
  bytes j := by
    change Fits _ (Tracking.bytesAt w.heap (w.heap.length + j)) []
    rw [Tracking.bytesAt_beyond]
    exact .refl _ _
  positionals := sameArg_all _ _
  input _ := ⟨rfl, fun _ => rfl, rfl, rfl, rfl, rfl⟩
  out := ⟨fun _ => rfl, rfl, rfl, rfl⟩
  err := rfl
  interrupted h := h.elim
  disposition := rfl
  saved := hsaved.trans (funext fun s => by cases s <;> rfl)

theorem runArguments_alike {k k' : ℕ} {u u' : World} (inv : Invocation)
    (h : Alike history.polled k k' u u') :
    Jointly (runArguments inv) (runArguments inv) u u' fun rc rc' x x' =>
      rc = rc' ∧ Alike history.polled k k' x x' :=
  runArguments_jointly h (sameCommand_refl inv) fun _ _ _ hx =>
    encryptStages_jointly hx trivial (fun _ => trivial) (sameKey_of_exact hx trivial)
      (fun _ => ⟨trivial, trivial⟩) (fun _ _ => trivial) fun _ _ _ _ => sealsAlike_of_exact trivial

theorem run_fresh (c : Call) (hsaved : w.saved = fun _ => none) :
    (c.run w).value = (c.run (freshProcess w)).value ∧
      (c.run w).final.out = (c.run (freshProcess w)).final.out ∧
      (c.run w).final.err = (c.run (freshProcess w)).final.err := by
  have hrun := saltCliRunWithStreamsInternal_jointly (sameCommand_refl c.inv) c.nullStream
    c.manageSignals (enter_alike c hsaved) fun _ _ h _ _ => runArguments_alike c.inv h
  exact ⟨hrun.1, hrun.2.out.all trivial, hrun.2.err⟩

theorem run_handlers (c : Call) (hsaved : w.saved = fun _ => none) (hrestores : RestoresSucceed c w) :
    SameHandlers w (c.run w).final :=
  have hend := saltCliRunWithStreamsInternal_handlers c.inv c.nullStream c.manageSignals
    (w := c.enter w) hsaved hrestores
  ⟨hend.sigint, hend.sigterm, hend.savedSigint, hend.savedSigterm⟩

theorem runCalls_saved (calls : List Call) (hsaved : w.saved = fun _ => none)
    (hrestores : ∀ before c after, calls = before ++ c :: after → RestoresSucceed c (runCalls before w)) :
    (runCalls calls w).saved = fun _ => none := by
  induction calls generalizing w with
  | nil => exact hsaved
  | cons c calls ih =>
    have hsame := run_handlers c hsaved (hrestores [] c calls rfl)
    exact ih (hsame.saved.trans hsaved) fun before d after hcalls =>
      hrestores (c :: before) d after (by rw [hcalls]; rfl)

/-- Only libsodium differs from call to call. -/
theorem runCalls_env (calls : List Call) (w : World) :
    ∃ sodium, (runCalls calls w).env = { w.env with sodium := sodium } := by
  induction calls generalizing w with
  | nil => exact ⟨w.env.sodium, rfl⟩
  | cons c calls ih =>
    have hrun : (c.run w).final.env = { w.env with sodium := c.sodium } :=
      saltCliRunWithStreamsInternal_env c.inv c.nullStream c.manageSignals (c.enter w)
    obtain ⟨sodium, hsodium⟩ := ih (c.run w).final
    exact ⟨sodium, hsodium.trans (by rw [hrun])⟩

end Calls

/-- Every call of a sequence leaves the dispositions as they were and nothing saved, and does what
it does in a process that has just started. -/
theorem runCalls_independent (w : World) (hsigint : w.savedSigint = none)
    (hsigterm : w.savedSigterm = none) (calls : List Call)
    (hrestores : ∀ before c after, calls = before ++ c :: after →
      RestoresSucceed c (runCalls before w)) :
    ∀ before c after, calls = before ++ c :: after →
      let u := runCalls before w
      let r := c.run u
      let fresh := c.run (freshProcess u)
      r.final.sigint = u.sigint ∧ r.final.sigterm = u.sigterm ∧
        r.final.savedSigint = none ∧ r.final.savedSigterm = none ∧
        r.value = fresh.value ∧ r.final.out = fresh.final.out ∧ r.final.err = fresh.final.err := by
  intro before c after hcalls u r fresh
  have hsaved : w.saved = fun _ => none := funext fun s => by
    cases s
    · exact hsigint
    · exact hsigterm
  have hu : u.saved = fun _ => none := runCalls_saved before hsaved fun before' d after' hbefore =>
    hrestores before' d (after' ++ c :: after) (by rw [hcalls, hbefore]; simp)
  have hsame := run_handlers c hu (hrestores before c after hcalls)
  exact ⟨hsame.sigint, hsame.sigterm, hsame.savedSigint.trans (congrFun hu .sigint),
    hsame.savedSigterm.trans (congrFun hu .sigterm), run_fresh c hu⟩

def sampleCall (sodium : Sodium) : Call :=
  ⟨sodium, sampleInvocation, false, true, sampleWorld.input, emptyOutStream, emptyOutStream⟩

def brokenSodium : Sodium := { referenceSodium with init := -1 }

def interruptedWorld : World := { sampleWorld with
  env := { calmEnv referenceSodium with sigaction := fun t => if t = 5 then -1 else 0 }
  interrupted := true }

/-- The calls that fail leave no trace in the one behind them. -/
theorem runCalls_independent_sample :
    let c := sampleCall referenceSodium
    let broken := sampleCall brokenSodium
    let u := runCalls [c, broken] interruptedWorld
    let r := c.run u
    r.final.sigint = u.sigint ∧ r.final.sigterm = u.sigterm ∧ r.final.savedSigint = none ∧
      r.final.savedSigterm = none ∧ r.value = (c.run (freshProcess u)).value ∧
      (c.run interruptedWorld).value = .errInternal ∧
      (broken.run (runCalls [c] interruptedWorld)).value = .errCrypto ∧ r.value = .ok := by
  have hrestores : ∀ before c after,
      [sampleCall referenceSodium, sampleCall brokenSodium, sampleCall referenceSodium] =
        before ++ c :: after → RestoresSucceed c (runCalls before interruptedWorld) := by
    intro before c after _ _ t hlate _
    obtain ⟨sodium, henv⟩ := runCalls_env before interruptedWorld
    rw [henv]
    exact if_neg (by omega)
  obtain ⟨hsigint, hsigterm, hsaved, hsaved', hvalue, -⟩ := runCalls_independent interruptedWorld rfl
    rfl _ hrestores [sampleCall referenceSodium, sampleCall brokenSodium] _ [] rfl
  exact ⟨hsigint, hsigterm, hsaved, hsaved', hvalue, by decide +kernel, by decide +kernel,
    by decide +kernel⟩

end Salt.History
