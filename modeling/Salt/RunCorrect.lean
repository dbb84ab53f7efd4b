import Salt.ArgumentsCorrect
import Salt.PipelineCorrect

set_option autoImplicit false

/-!
# The run

Every way a run can go, from the zeroed state to the cleanup. The cleanup comes
behind all of them.
-/
namespace Salt.RunCorrect
open ByteStrings BlockHeap TracedState Sealing SealingCorrect StreamFacts Framing Tracking ReportingCorrect
  Ownership ArgumentsCorrect KeyLoading PlaintextLoading EmissionCorrect PipelineCorrect

def initState : CliState := { zeroState with fixedBuffersLocked := true }

def optionState (inv : Invocation) : CliState :=
  selectPositionals inv.positionals (withOptions inv.events initState)

def asksHelp : OptEvent → Bool
  | .help => true
  | _ => false

def information (inv : Invocation) (version : Bytes) : Bytes :=
  if inv.events.any asksHelp then usageText inv.program.bytes else versionText version

theorem withOptions_showHelp (events : List OptEvent) (s : CliState) :
    (withOptions events s).showHelp = (s.showHelp || events.any asksHelp) := by
  induction events generalizing s with
  | nil => simp [withOptions, latest]
  | cons event events ih =>
    rw [withOptions_cons, ih]
    cases event <;> simp [withOptions, latest, helpArg, asksHelp]

theorem withOptions_asks (events : List OptEvent) (s : CliState) :
    ((withOptions events s).showHelp || (withOptions events s).showVersion) =
      (s.showHelp || s.showVersion || events.any asksText) := by
  induction events generalizing s with
  | nil => simp [withOptions, latest]
  | cons event events ih =>
    rw [withOptions_cons, ih]
    cases event <;> simp [withOptions, latest, helpArg, versionArg, asksText]

theorem withOptions_keyOption (events : List OptEvent) (ref : TextRef)
    (h : (withOptions events initState).keyOption = some ref) : ∃ key, ref = .text key := by
  have hlatest : latest keyArg none events = some ref := h
  unfold latest at hlatest
  cases hlast : (events.filterMap keyArg).getLast? with
  | none =>
    rw [hlast] at hlatest
    exact absurd hlatest (by simp)
  | some last =>
    obtain ⟨event, -, hevent⟩ := List.mem_filterMap.1 (List.mem_of_getLast? hlast)
    rw [hlast, Option.getD_some] at hlatest
    cases event with
    | key v =>
      simp only [keyArg, Option.some.injEq] at hevent
      rw [← hevent] at hlatest
      exact ⟨v, (Option.some.inj hlatest).symm⟩
    | _ => simp [keyArg] at hevent

theorem tidy_options {heap : Heap} (h : ∀ b ∈ heap, b.Disposed) (events : List OptEvent) :
    Tidy (withOptions events initState) heap :=
  (tidy_zeroState h).congr (funext fun o => by cases o <;> rfl) (fun o _ => by cases o <;> rfl)
    rfl rfl rfl

section Parse
variable {w₀ w : World} {v : View} {inv : Invocation}

inductive ParseEnds (inv : Invocation) (w₀ : World) (v : View) (s : OutStream) (rc : SaltStatus)
    (w' : World) : Prop where
  | misused (event : OptEvent) (hmem : event ∈ inv.events) (hbad : Valid event = false)
      (hrc : rc = .errInput ∨ rc = .errIo) (text error : Bytes) (err : OutStream)
      (hdiag : IsDiagnostic text)
      (hsent : Sent w₀ { v with state := withOptions (inv.events.takeWhile Valid) initState } text
        (rc = .errInput) w' error err) (hout : w'.out = s)
  | informed (hvalid : ∀ e ∈ inv.events, Valid e = true) (hasks : inv.events.any asksText = true)
      (h : Delivered w₀ { v with state := withOptions inv.events initState } s
        (information inv w₀.env.version) rc w')
  | declined (hvalid : ∀ e ∈ inv.events, Valid e = true) (hasks : inv.events.any asksText = false)
      (hno : ¬ Admissible inv (withOptions inv.events initState))
      (h : Declined inv { v with state := withOptions inv.events initState } rc w')
      (hout : w'.out = s)
  | accepted (hvalid : ∀ e ∈ inv.events, Valid e = true) (hasks : inv.events.any asksText = false)
      (hadm : Admissible inv (withOptions inv.events initState)) (hrc : rc = .ok)
      (h : Tracks w₀ { v with state := optionState inv } w') (hout : w'.out = s)

theorem printVersion_delivered (h : Tracks w₀ v w) :
    Ends (printVersion .out) w (Delivered w₀ v w.out (versionText w₀.env.version)) := by
  refine Ends.bind_read (a := w₀.env.version) (by rw [← h.env]) ?_
  exact saltCliWriteStream_delivered h (by decide) _

theorem saltCliArgsParseArguments_ends (h : Tracks w₀ v w) (hs : v.state = initState)
    (hheap : ∀ b ∈ v.heap, b.Disposed) :
    Ends (saltCliArgsParseArguments inv) w (ParseEnds inv w₀ v w.out) := by
  have hout : Ends (handleOptions inv.events) w fun _ w' => w'.out = w.out :=
    (handleOptions_internal inv.events).quiet.out_eq w
  refine (hout.and (handleOptions_applied h inv.events)).bind ?_
  rw [hs]
  rintro rc w₁ ⟨hout₁, ⟨hvalid, rfl, h₁⟩ | ⟨⟨event, hmem, hbad⟩, hrc, text, error, err, hdiag, hsent⟩⟩
  · have hasks := withOptions_asks inv.events initState
    have hhelp := withOptions_showHelp inv.events initState
    have hnone : (initState.showHelp || initState.showVersion) = false := rfl
    rw [hnone, Bool.false_or] at hasks
    rw [show initState.showHelp = false from rfl, Bool.false_or] at hhelp
    rw [← hout₁]
    refine Ends.bind_read h₁.state ?_
    refine .ite (fun hh => ?_) fun hh => .ite (fun hversion => ?_) fun hversion => ?_
    · rw [hh, Bool.true_or] at hasks
      have htext : information inv w₀.env.version = usageText inv.program.bytes := by
        rw [information, if_pos (hhelp.symm.trans hh)]
      refine (saltCliWriteStream_delivered h₁ (by decide) _).mono fun rc w₃ hd =>
        .informed hvalid hasks.symm ?_
      rw [htext]
      exact hd
    · rw [hversion, Bool.or_true] at hasks
      have htext : information inv w₀.env.version = versionText w₀.env.version := by
        rw [information, if_neg fun hany => hh (hhelp.trans hany)]
      refine (printVersion_delivered h₁).mono fun rc w₃ hd => .informed hvalid hasks.symm ?_
      rw [htext]
      exact hd
    · rw [Bool.not_eq_true] at hh hversion
      rw [hh, hversion] at hasks
      have hout₂ : Ends (checkOptions inv) w₁ fun _ w' => w'.out = w₁.out :=
        (checkOptions_internal inv).quiet.out_eq w₁
      refine (hout₂.and (checkOptions_checked h₁ (tidy_options hheap _)
        (withOptions_keyOption inv.events))).mono fun rc w₃ ⟨hout₃, hend⟩ => ?_
      rcases hend with ⟨hrc, hadm, h₃⟩ | ⟨hdeclined, hno⟩
      · exact .accepted hvalid hasks.symm hadm hrc h₃ hout₃
      · exact .declined hvalid hasks.symm hno hdeclined hout₃
  · have hne : rc ≠ .ok := by rcases hrc with rfl | rfl <;> decide
    rw [if_pos hne]
    exact .ret (.misused event hmem hbad hrc text error err hdiag hsent hout₁)

end Parse

/-- A bad option: reported once, or, behind help or version, a second time with an empty message. -/
structure Misused (inv : Invocation) (v : View) (rc : SaltStatus) (w' : World) : Prop where
  status : rc = .errInput ∨ rc = .errIo
  once : v.err.Accepts → (inv.events.takeWhile Valid).any asksText = false → Diagnosed v.err w'.err
  twice : v.err.Accepts → (inv.events.takeWhile Valid).any asksText = true →
    ∃ text, IsDiagnostic text ∧ Received v.err [text, ascii "error: \n"] w'.err
  tidy : Tidy w'.state w'.heap
  undefined : w'.undefined = v.undefined

inductive RunEnds (inv : Invocation) (w₀ : World) (v : View) (positionals : List Bytes)
    (s : OutStream) (rc : SaltStatus) (w' : World) : Prop where
  | misused (event : OptEvent) (hmem : event ∈ inv.events) (hbad : Valid event = false)
      (h : Misused inv v rc w') (hout : w'.out = s)
  | informed (hvalid : ∀ e ∈ inv.events, Valid e = true) (hasks : inv.events.any asksText = true)
      (h : Issued v.err v.undefined v.positionals s (information inv w₀.env.version) rc w')
  | declined (hvalid : ∀ e ∈ inv.events, Valid e = true) (hasks : inv.events.any asksText = false)
      (hno : ¬ Admissible inv (withOptions inv.events initState))
      (h : Rejected inv.program v.err v.undefined rc w') (hout : w'.out = s)
  | recorded (hvalid : ∀ e ∈ inv.events, Valid e = true) (hasks : inv.events.any asksText = false)
      (hadm : Admissible inv (withOptions inv.events initState)) (key : Bytes)
      (keyId : Option Bytes) (text : Bytes)
      (hload : Loadable { v with state := optionState inv } key keyId)
      (hrecorded : Recorded w₀.env { v with state := optionState inv } key keyId text)
      (h : Issued v.err v.undefined positionals s text rc w')
  | refused (hvalid : ∀ e ∈ inv.events, Valid e = true) (hasks : inv.events.any asksText = false)
      (hadm : Admissible inv (withOptions inv.events initState))
      (h : Failed v.err v.undefined positionals rc w') (hout : w'.out = s)
      (hwhy : FaultFree w₀ → ∀ key keyId, Loadable { v with state := optionState inv } key keyId →
        Unrecordable w₀.env { v with state := optionState inv } key keyId)

section Arguments
variable {w₀ w : World} {v : View} {inv : Invocation}

theorem finishArguments_misused {text error : Bytes} {err : OutStream} {rc : SaltStatus}
    (hsent : Sent w₀ { v with state := withOptions (inv.events.takeWhile Valid) initState } text
      (rc = .errInput) w error err)
    (hrc : rc = .errInput ∨ rc = .errIo) (hdiag : IsDiagnostic text)
    (hheap : ∀ b ∈ v.heap, b.Disposed) :
    Ends (finishArguments w.state rc) w (Misused inv v) := by
  have ht := tidy_options hheap (inv.events.takeWhile Valid)
  have hne : rc ≠ .ok := by rcases hrc with rfl | rfl <;> decide
  have hflags := withOptions_asks (inv.events.takeWhile Valid) initState
  rw [show (initState.showHelp || initState.showVersion) = false from rfl, Bool.false_or] at hflags
  have hstate := hsent.tracks.state
  change w.state = { withOptions (inv.events.takeWhile Valid) initState with error := error } at hstate
  refine .ite (fun hasks => ?_) fun hquiet => ?_
  · rw [hstate, Bool.and_eq_true, hflags] at hasks
    refine Ends.bind (R := fun _ w' => ∃ error₂ err₂,
      Sent w₀ (noted { v with state := withOptions (inv.events.takeWhile Valid) initState } error err)
        (stateErrorText w.state) True w' error₂ err₂) ?_ fun _ w' ⟨error₂, err₂, hsent₂⟩ => ?_
    · refine Ends.bind_read rfl ?_
      refine (saltCliWriteStream_sent hsent.tracks false _ _).mono
        fun a w' ⟨_, error₂, err₂, h₂⟩ => ⟨error₂, err₂, h₂.tracks, h₂.length, fun hacc => ?_⟩
      exact ⟨trivial, (h₂.accepted hacc).2⟩
    refine .ret ⟨hrc, fun _ hquiet => ?_, fun hacc _ => ⟨text, hdiag, ?_⟩, ?_, hsent₂.tracks.undefined⟩
    · rw [hquiet] at hasks
      exact Bool.noConfusion hasks.1
    · obtain ⟨-, herror, hreceived⟩ := hsent.accepted hacc
      obtain ⟨-, -, hreceived₂⟩ := hsent₂.accepted (hreceived.accepts hacc)
      have hempty : stateErrorText w.state = ascii "error: \n" := by
        rw [hstate, herror]
        rfl
      rw [hempty] at hreceived₂
      rw [hsent₂.tracks.err]
      exact hreceived.trans hreceived₂
    · rw [hsent₂.tracks.state, hsent₂.tracks.heap]
      exact ht.withError (hsent₂.length.trans hsent.length)
  · rw [hstate, hflags, decide_eq_true hne, Bool.and_true] at hquiet
    refine .ret ⟨hrc, fun hacc _ => ?_, fun _ hasks => absurd hasks hquiet, ?_,
      hsent.tracks.undefined⟩
    · rw [hsent.tracks.err]
      exact ⟨text, hdiag, (hsent.accepted hacc).2.2⟩
    · rw [hstate, hsent.tracks.heap]
      exact ht.withError hsent.length

theorem finishArguments_issued {s : OutStream} {text : Bytes} {rc : SaltStatus}
    (h : Delivered w₀ v s text rc w) (ht : Tidy v.state v.heap)
    (hasks : (v.state.showHelp || v.state.showVersion) = true) :
    Ends (finishArguments w.state rc) w (Issued v.err v.undefined v.positionals s text) := by
  obtain ⟨error, hm⟩ := h.minded
  have hflags : (w.state.showHelp || w.state.showVersion) = true := by
    rw [hm.tracks.state]
    exact hasks
  have hrun : Ends (if rc ≠ .ok then reportOrIo rc else return .ok) w
    (Issued v.err v.undefined v.positionals s text) := delivered_issued h ht
  by_cases hrc : rc = .ok
  · subst hrc
    rw [if_neg (by simp)] at hrun
    rw [finishArguments, if_neg (by simp)]
    exact hrun
  · obtain rfl : rc = .errIo := h.status.resolve_left hrc
    rw [if_pos hrc] at hrun
    rw [finishArguments, if_pos (by simp [hflags])]
    simpa only [reportOrIo, ite_self] using hrun

theorem optionState_ready (inv : Invocation) (hadm : Admissible inv (withOptions inv.events initState))
    (hheap : ∀ b ∈ v.heap, b.Disposed)
    (hpositionals : v.positionals = inv.positionals.map CString.bytes) :
    Ready { v with state := optionState inv } where
  tidy := (tidy_options hheap inv.events).congr (funext fun o => by cases o <;> rfl)
    (fun o _ => by cases o <;> rfl) rfl rfl rfl
  stdinKey := rfl
  stdinPlaintext := rfl
  argvPlaintextCopy := rfl
  trimmedKeyInput := rfl
  output := rfl
  effectiveKeyId := rfl
  keyOption _ := by
    obtain ⟨key, hkey, -⟩ := hadm.key
    exact ⟨key, hkey⟩
  sources := hadm.sources
  plaintext hstdin := by
    change (optionState inv).plaintextFromStdin = false at hstdin
    rw [plaintextSource, if_neg (by rw [hstdin]; decide)]
    change 0 ∉ v.positionals.getD ((optionState inv).plaintextArg.getD 0) []
    rw [hpositionals, List.getD_eq_getElem?_getD, List.getElem?_map]
    cases inv.positionals[(optionState inv).plaintextArg.getD 0]? with
    | none => exact List.not_mem_nil
    | some s => exact s.noNul

theorem runArguments_ends (h : Tracks w₀ v w) (hs : v.state = initState)
    (hheap : ∀ b ∈ v.heap, b.Disposed)
    (hpositionals : v.positionals = inv.positionals.map CString.bytes) :
    Ends (runArguments inv) w (RunEnds inv w₀ v
      (positionalsLoaded (saltCliArgsParseArguments inv w).final) w.out) := by
  have hrun : Ends (saltCliArgsParseArguments inv) w fun _ w' =>
    w' = (saltCliArgsParseArguments inv w).final := rfl
  refine (hrun.and (saltCliArgsParseArguments_ends h hs hheap)).bind fun rc w₁ ⟨hw₁, hparse⟩ => ?_
  rw [← hw₁]
  refine Ends.bind_read rfl ?_
  have hout (m : Cli SaltStatus) (hm : Internal m) : (m w₁).final.out = w₁.out := hm.quiet.out_eq w₁
  cases hparse with
  | misused event hmem hbad hrc text error err hdiag hsent hout₁ =>
    have hne : rc ≠ .ok := by rcases hrc with rfl | rfl <;> decide
    rw [decide_eq_true hne, Bool.true_or, Bool.true_or, if_pos rfl]
    have hout₂ : Ends (finishArguments w₁.state rc) w₁ fun _ w' => w'.out = w₁.out :=
      hout _ (finishArguments_internal w₁.state rc)
    rw [hout₁] at hout₂
    exact (hout₂.and (finishArguments_misused hsent hrc hdiag hheap)).mono
      fun rc' w₂ ⟨hout₂, hm⟩ => .misused event hmem hbad hm hout₂
  | informed hvalid hasks hd =>
    have hflags := withOptions_asks inv.events initState
    rw [hasks, Bool.or_true] at hflags
    obtain ⟨error, hm⟩ := hd.minded
    have hstate : (w₁.state.showHelp || w₁.state.showVersion) = true := by
      rw [hm.tracks.state]
      exact hflags
    rw [Bool.or_assoc, hstate, Bool.or_true, if_pos rfl]
    exact (finishArguments_issued hd (tidy_options hheap _) hflags).mono
      fun rc' w₂ hissued => .informed hvalid hasks hissued
  | declined hvalid hasks hno hd hout₁ =>
    have hflags := withOptions_asks inv.events initState
    rw [show (initState.showHelp || initState.showVersion) = false from rfl, Bool.false_or, hasks]
      at hflags
    have hstate : (w₁.state.showHelp || w₁.state.showVersion) = false := by
      rw [hd.showHelp, hd.showVersion]
      exact hflags
    rw [decide_eq_true hd.rejected.ne_ok, Bool.true_or, Bool.true_or, if_pos rfl, finishArguments,
      hstate, Bool.false_and, if_neg (by decide)]
    exact .ret (.declined hvalid hasks hno hd.rejected hout₁)
  | accepted hvalid hasks hadm hrc h₁ hout₁ =>
    subst hrc
    have hflags := withOptions_asks inv.events initState
    rw [show (initState.showHelp || initState.showVersion) = false from rfl, Bool.false_or, hasks]
      at hflags
    have hstate : (w₁.state.showHelp || w₁.state.showVersion) = false := by
      rw [h₁.state]
      exact hflags
    rw [Bool.or_assoc, hstate, Bool.or_false, if_neg (by simp)]
    refine (encryptStages_issued h₁ (optionState_ready inv hadm hheap hpositionals)).mono
      fun rc w₂ hend => ?_
    rw [hout₁] at hend
    rcases hend with ⟨key, keyId, text, hload, hrecorded, hissued⟩ | ⟨hf, hout₂, hwhy⟩
    · exact .recorded hvalid hasks hadm key keyId text hload hrecorded hissued
    · exact .refused hvalid hasks hadm hf hout₂ hwhy

end Arguments

/-- A process that is about to make the run: its arguments are in place, and nothing is owed. -/
structure Starts (inv : Invocation) (w : World) : Prop where
  positionals : w.positionals = inv.positionals.map CString.bytes
  heap : ∀ b ∈ w.heap, b.Disposed

def resetWorld (manageSignals : Bool) (w : World) : World :=
  (saltCliResetInterrupted (installStage manageSignals (saltCliStateInit w).final).final).final

def parsedWorld (inv : Invocation) (manageSignals : Bool) (w : World) : World :=
  (saltCliArgsParseArguments inv (resetWorld manageSignals w)).final

def startView (w : World) : View := { view w with state := initState }

inductive StagesEnd (inv : Invocation) (manageSignals : Bool) (w : World) (rc : SaltStatus)
    (w' : World) : Prop where
  | uninstalled (hrc : (installStage manageSignals (saltCliStateInit w).final).value ≠ .ok)
      (h : Failed w.err w.undefined w.positionals rc w') (hout : w'.out = w.out)
  | ran (hrc : (installStage manageSignals (saltCliStateInit w).final).value = .ok)
      (h : RunEnds inv (resetWorld manageSignals w) (startView w)
        (positionalsLoaded (parsedWorld inv manageSignals w)) w.out rc w')

structure CleanedUp (w₁ w' : World) : Prop where
  state : w'.state = zeroState
  heap : ∀ b ∈ w'.heap, b.Disposed
  out : w'.out = w₁.out
  err : w'.err = w₁.err
  undefined : w'.undefined = w₁.undefined
  positionals : w'.positionals = w₁.positionals

section Signals
variable {w₀ w : World} {v : View}

theorem update_tracks (h : Tracks w₀ v w) {g : World → World} (hview : view (g w) = view w)
    (henv : (g w).env = w.env) (hclock : (g w).clock = w.clock)
    (hflag : (g w).interrupted = w.interrupted) : Tracks w₀ v (g w) := by
  refine ⟨hview.trans h.view, henv.trans h.env, h.clock.trans hclock.ge, fun h₀ => ?_⟩
  have hf := h.faultFree h₀
  have hin : (g w).input = w.input := congrArg View.input hview
  have herr : (g w).err = w.err := congrArg View.err hview
  refine ⟨?_, ?_, hflag.trans hf.interrupted, hin ▸ hf.input, herr ▸ hf.err⟩
  · rw [henv, hclock]
    exact hf.alloc
  · rw [henv, hclock]
    exact hf.signals

theorem atomic_tracks {α : Type} (h : Tracks w₀ v w) {f : World → α × World}
    (hview : ∀ w, view (f w).2 = view w) (henv : ∀ w, (f w).2.env = w.env)
    (hclock : ∀ w, (f w).2.clock = w.clock) (hflag : ∀ w, (f w).2.interrupted = w.interrupted) :
    Ends (atomic f) w fun _ w' => Tracks w₀ v w' := by
  refine ⟨(hview w.deliver).trans h.view, (henv w.deliver).trans h.env, ?_, fun h₀ => ?_⟩
  · refine h.clock.trans ?_
    change w.clock ≤ (f w.deliver).2.clock + 1
    rw [hclock]
    exact Nat.le_succ _
  · have hd : Tracks w₀ v w.deliver :=
      ⟨h.view, h.env, h.clock, fun h₀ => faultFree_deliver (h.faultFree h₀)⟩
    exact faultFree_tick ((update_tracks hd (g := fun w => (f w).2) (hview _) (henv _) (hclock _)
      (hflag _)).faultFree h₀)

theorem setSaved_tracks (h : Tracks w₀ v w) (signal : Signal) (d : Option Disposition) :
    Ends (setSaved signal d) w fun _ w' => Tracks w₀ v w' := by
  cases signal
  · exact update_tracks h (g := fun w => w.setSaved .sigint d) rfl rfl rfl rfl
  · exact update_tracks h (g := fun w => w.setSaved .sigterm d) rfl rfl rfl rfl

theorem markInstalled_tracks (h : Tracks w₀ v w) :
    Ends markInstalled w fun _ w' => Tracks w₀ v w' :=
  update_tracks h (g := fun w => { w with installedAt := some w.clock }) rfl rfl rfl rfl

theorem sigaction_tracks (h : Tracks w₀ v w) (signal : Signal) (d : Disposition) :
    Ends (sigaction signal d) w fun _ w' => Tracks w₀ v w' := by
  refine atomic_tracks h ?_ ?_ ?_ ?_
  all_goals
    intro w
    dsimp only
    cases signal <;> split <;> rfl

theorem saltCliEnsureSignalHandlers_tracks (h : Tracks w₀ v w) :
    Ends saltCliEnsureSignalHandlers w fun _ w' => Tracks w₀ v w' := by
  have hempty : Ends sigemptyset w fun _ w' => Tracks w₀ v w' :=
    atomic_tracks h (fun _ => rfl) (fun _ => rfl) (fun _ => rfl) fun _ => rfl
  refine hempty.bind fun _ w₁ h₁ => .ite (fun _ => .ret h₁) fun _ => ?_
  refine (sigaction_tracks h₁ .sigint _).bind fun r w₂ h₂ => ?_
  obtain ⟨rc, old⟩ := r
  refine .ite (fun _ => .ret h₂) fun _ => ?_
  refine (setSaved_tracks h₂ _ _).bind fun _ w₃ h₃ => ?_
  refine (sigaction_tracks h₃ .sigterm _).bind fun r w₄ h₄ => ?_
  obtain ⟨rc, oldTerm⟩ := r
  refine .ite (fun _ => ?_) fun _ => ?_
  · refine (sigaction_tracks h₄ _ _).bind fun _ w₅ h₅ => ?_
    exact (setSaved_tracks h₅ _ _).bind fun _ w₆ h₆ => .ret h₆
  · refine (setSaved_tracks h₄ _ _).bind fun _ w₅ h₅ => ?_
    exact (markInstalled_tracks h₅).bind fun _ w₆ h₆ => .ret h₆

theorem restoreSignalHandler_tracks (h : Tracks w₀ v w) (signal : Signal) :
    Ends (restoreSignalHandler signal) w fun _ w' => Tracks w₀ v w' := by
  refine Ends.bind (R := fun _ w' => Tracks w₀ v w') h fun saved w₁ h₁ => ?_
  cases saved with
  | none => exact .ret h₁
  | some d =>
    exact (sigaction_tracks h₁ signal d).bind fun _ w₂ h₂ => setSaved_tracks h₂ signal none

theorem installStage_ends (h : Tracks w₀ v w) (ht : Tidy v.state v.heap) (manageSignals : Bool) :
    Ends (installStage manageSignals) w fun rc w' =>
      (rc = .ok ∧ Tracks w₀ v w') ∨ Failed v.err v.undefined v.positionals rc w' := by
  refine .ite (fun _ => ?_) fun _ => .ret (.inl ⟨rfl, h⟩)
  refine (saltCliEnsureSignalHandlers_tracks h).bind fun rc w₁ h₁ => .ite (fun _ => ?_) fun _ =>
    .ret (.inl ⟨rfl, h₁⟩)
  refine (saltCliSetError_tracks h₁ true _ .errInternal).bind fun rc w₂ ⟨hrc, h₂⟩ => ?_
  subst hrc
  exact (reportOrIo_failed h₂ (by decide) (cstr_withError ht.error (by decide))
    (ht.message _)).mono fun a w₃ ⟨_, hf, _⟩ => .inr hf

theorem saltCliStateInit_tracks (h : Tracks w₀ v w) :
    Ends saltCliStateInit w fun _ w' => Tracks w₀ { v with state := initState } w' := by
  refine (modifyState_tracks h _).bind fun _ w₁ h₁ => ?_
  refine (modifyState_tracks h₁ _).bind fun _ w₂ h₂ => ?_
  refine (sodiumMlock_tracks h₂ _).bind fun _ w₃ h₃ => ?_
  refine (sodiumMlock_tracks h₃ _).bind fun _ w₄ h₄ => ?_
  refine (sodiumMlock_tracks h₄ _).bind fun _ w₅ h₅ => ?_
  exact modifyState_tracks h₅ _

/-- The reset starts a run without a stale interruption. -/
theorem saltCliResetInterrupted_starts (h : Tracks w₀ v w) (hin : v.input = w₀.input)
    (herr : v.err = w₀.err) :
    Ends saltCliResetInterrupted w fun _ w' => view w' = v ∧ w'.env = w₀.env ∧
      (FaultFree { w₀ with interrupted := false } → FaultFree w') := by
  refine ⟨h.view, h.env, fun h₀ => ?_⟩
  have hclock : w₀.clock ≤ w.clock + 1 := h.clock.trans (Nat.le_succ _)
  refine ⟨fun t ht => ?_, fun t s ht => ?_, rfl, ?_, ?_⟩
  · change w.env.alloc t ≠ none
    rw [h.env]
    exact h₀.alloc t (hclock.trans ht)
  · change w.env.signals t s = false
    rw [h.env]
    exact h₀.signals t s (hclock.trans ht)
  · change w.input.Reliable
    rw [h.input, hin]
    exact h₀.input
  · change w.err.Accepts
    rw [h.err, herr]
    exact h₀.err

end Signals

section Run
variable {inv : Invocation} {manageSignals : Bool} {w : World}

/-- The world behind the reset: the streams are those of the start, and faults are not added. -/
structure ResetWorld (w₀ w : World) : Prop where
  view : view w = startView w₀
  env : w.env = w₀.env
  faultFree : FaultFree { w₀ with interrupted := false } → FaultFree w
  out : w.out = w₀.out

theorem installed_or_failed (hstart : Starts inv w) :
    Ends (installStage manageSignals) (saltCliStateInit w).final fun rc w' =>
      (rc = .ok ∧ Tracks w (startView w) w') ∨
        Failed w.err w.undefined w.positionals rc w' := by
  have hinit : Tracks w (startView w) (saltCliStateInit w).final :=
    saltCliStateInit_tracks (Tracks.refl w)
  have ht : Tidy (startView w).state (startView w).heap :=
    (tidy_zeroState hstart.heap).congr (funext fun o => by cases o <;> rfl)
      (fun o _ => by cases o <;> rfl) rfl rfl rfl
  exact installStage_ends hinit ht manageSignals

theorem installStage_out (manageSignals : Bool) (w : World) :
    (installStage manageSignals (saltCliStateInit w).final).final.out = w.out :=
  ((installStage_quiet manageSignals).out_eq _).trans (saltCliStateInit_internal.quiet.out_eq w)

theorem resetWorld_starts (hstart : Starts inv w)
    (hrc : (installStage manageSignals (saltCliStateInit w).final).value = .ok) :
    ResetWorld w (resetWorld manageSignals w) := by
  have hinstalled : Ends (installStage manageSignals) (saltCliStateInit w).final fun _ w' =>
    Tracks w (startView w) w' :=
    ((installed_or_failed hstart).resolve_right fun hf => hf.ne_ok hrc).2
  obtain ⟨hview, henv, hcalm⟩ := saltCliResetInterrupted_starts hinstalled rfl rfl
  exact ⟨hview, henv, hcalm,
    (saltCliResetInterrupted_quiet.out_eq _).trans (installStage_out manageSignals w)⟩

theorem runStages_ends (hstart : Starts inv w) :
    Ends (runStages inv manageSignals) (saltCliStateInit w).final
      (StagesEnd inv manageSignals w) := by
  have hrun : Ends (installStage manageSignals) (saltCliStateInit w).final fun rc w' =>
    rc = (installStage manageSignals (saltCliStateInit w).final).value ∧
      w' = (installStage manageSignals (saltCliStateInit w).final).final := ⟨rfl, rfl⟩
  refine (hrun.and (installed_or_failed hstart)).bind fun rc w₁ ⟨⟨hrc, hw₁⟩, hend⟩ =>
    .ite (fun hne => ?_) fun hok => ?_
  · have hf := hend.resolve_left fun h => hne h.1
    exact .ret (.uninstalled (hrc ▸ hne) hf (hw₁ ▸ installStage_out manageSignals w))
  · rw [not_not.1 hok] at hrc
    have hworld := resetWorld_starts hstart hrc.symm
    refine Ends.bind (R := fun _ w' => w' = resetWorld manageSignals w) (by rw [hw₁]; rfl) ?_
    rintro _ _ rfl
    refine (runArguments_ends (Tracks.refl _) ?_ ?_ ?_).mono fun rc w₂ hend => ?_
    · rw [hworld.view]
      rfl
    · rw [hworld.view]
      exact hstart.heap
    · rw [hworld.view]
      exact hstart.positionals
    · rw [hworld.view, hworld.out] at hend
      exact .ran hrc.symm hend

theorem StagesEnd.tidy {rc : SaltStatus} {w₁ : World} (h : StagesEnd inv manageSignals w rc w₁) :
    Tidy w₁.state w₁.heap ∧ w₁.undefined = w.undefined := by
  cases h with
  | uninstalled _ hf _ => exact ⟨hf.tidy, hf.undefined⟩
  | ran _ hrun =>
    cases hrun with
    | misused _ _ _ hm _ => exact ⟨hm.tidy, hm.undefined⟩
    | informed _ _ hissued => exact hissued.tidy
    | declined _ _ _ hd _ => exact ⟨hd.tidy, hd.undefined⟩
    | recorded _ _ _ _ _ _ _ _ hissued => exact hissued.tidy
    | refused _ _ _ hf _ _ => exact ⟨hf.tidy, hf.undefined⟩

theorem cleanupRun_cleans (ht : Tidy w.state w.heap) (manageSignals : Bool) :
    Ends (cleanupRun manageSignals) w fun _ w' => CleanedUp w w' := by
  have hout := (cleanupRun_quiet manageSignals).out_eq w
  have hclean : Ends (cleanupRun manageSignals) w fun _ w' => ∃ heap,
      Tracks w { view w with state := zeroState, heap := heap } w' ∧ ∀ b ∈ heap, b.Disposed := by
    refine .ite (fun _ => ?_) fun _ => saltCliStateCleanup_tracks (Tracks.refl w) ht
    have hrestore : Ends saltCliRestoreSignalHandlers w fun _ w' => Tracks w (view w) w' :=
      (restoreSignalHandler_tracks (Tracks.refl w) .sigint).bind
        fun _ _ h₁ => restoreSignalHandler_tracks h₁ .sigterm
    exact hrestore.bind fun _ w₁ h₁ => saltCliStateCleanup_tracks h₁ ht
  obtain ⟨heap, h, hdisposed⟩ := hclean
  refine ⟨h.state, ?_, hout, h.err, h.undefined, h.positionals⟩
  rw [h.heap]
  exact hdisposed

/-- A run ends as its stages do, cleaned up; a bad call does nothing. -/
theorem saltCliRunWithStreamsInternal_ends (nullStream manageSignals : Bool)
    (hstart : Starts inv w) :
    Ends (saltCliRunWithStreamsInternal inv nullStream manageSignals) w fun rc w' =>
      ((saltCliHasValidArgvShape inv = false ∨ nullStream = true) ∧ rc = .errInput ∧ w' = w) ∨
      (saltCliHasValidArgvShape inv = true ∧ nullStream = false ∧
        ∃ w₁, StagesEnd inv manageSignals w rc w₁ ∧ CleanedUp w₁ w') := by
  refine .ite (fun hbad => .ret (.inl ⟨?_, rfl, rfl⟩)) fun hgood => ?_
  · simpa using hbad
  · refine Ends.bind (R := fun _ w' => w' = (saltCliStateInit w).final) rfl ?_
    rintro _ _ rfl
    refine (runStages_ends hstart).bind fun rc w₁ hend => ?_
    refine (cleanupRun_cleans hend.tidy.1 manageSignals).bind fun _ w₂ hclean => .ret (.inr ?_)
    simp only [Bool.or_eq_true, Bool.not_eq_true', not_or, Bool.not_eq_false,
      Bool.not_eq_true] at hgood
    exact ⟨hgood.1, hgood.2, w₁, hend, hclean⟩

end Run

def programName : CString := ⟨ascii "salt", by decide⟩

def sampleInvocation : Invocation where
  argc := 4
  argv := some [some programName, some ⟨ascii "-k", by decide⟩, some sampleKeyText,
    some ⟨ascii "hi", by decide⟩]
  events := [.key sampleKeyText]
  positionals := [⟨ascii "hi", by decide⟩]

def sampleWorld : World := freshWorld (calmEnv referenceSodium) [] [ascii "hi"]

theorem sampleWorld_starts : Starts sampleInvocation sampleWorld :=
  ⟨rfl, fun _ hb => absurd hb List.not_mem_nil⟩

end Salt.RunCorrect
