import Salt.EndToEnd

set_option autoImplicit false

/-!
# When the positional plaintext is scrubbed

The scrub stands between the copy of the argument and the seal. A run that
leaves before it, for the key or for the length of the plaintext or for want of
memory, leaves the argument as it was.
-/
namespace Salt.ArgvScrubbing
open ByteStrings BlockHeap TracedState Sealing SealingCorrect Trimming StreamFacts Framing Tracking
  Ownership ArgumentsCorrect KeyLoading PlaintextLoading EmissionCorrect PipelineCorrect RunCorrect
  EndToEnd

/-- The key stage succeeds from this world, and the plaintext is short enough and can be copied. -/
def Scrubs (w : World) : Prop :=
  let r := saltCliInputLoadKeyInput w
  r.value = .ok ∧ Copies r.final (view r.final) = true

instance (w : World) : Decidable (Scrubs w) := inferInstanceAs (Decidable (_ ∧ _))

/-- The parser accepted the arguments and chose a positional plaintext. -/
structure Selected (inv : Invocation) (manageSignals : Bool) (w : World) : Prop where
  installed : (installStage manageSignals (saltCliStateInit w).final).value = .ok
  parsed : (saltCliArgsParseArguments inv (resetWorld manageSignals w)).value = .ok
  positional : (parsedWorld inv manageSignals w).state.plaintextArg ≠ none
  notStdin : (parsedWorld inv manageSignals w).state.plaintextFromStdin = false

def argument (w : World) : Bytes := w.positionals.getD 0 []

section Scrub
variable {inv : Invocation} {manageSignals : Bool} {w : World}

theorem scrubbed_all (positionals : List Bytes) (s : Bytes) (h : positionals.getD 0 [] = s) :
    (scrubbed 0 s.length positionals).getD 0 [] = List.replicate s.length 0 := by
  subst h
  cases positionals <;> simp [scrubbed]

theorem Selected.accepted (h : Selected inv manageSignals w) (hstart : Starts inv w) :
    (∀ e ∈ inv.events, Valid e = true) ∧ inv.events.any asksText = false ∧
      Admissible inv (withOptions inv.events initState) ∧
      Tracks (resetWorld manageSignals w) (stagesView inv w) (parsedWorld inv manageSignals w) := by
  have hreset := resetWorld_starts hstart h.installed
  have hends : ParseEnds inv (resetWorld manageSignals w) (view (resetWorld manageSignals w))
      (resetWorld manageSignals w).out
      (saltCliArgsParseArguments inv (resetWorld manageSignals w)).value
      (parsedWorld inv manageSignals w) :=
    saltCliArgsParseArguments_ends (Tracks.refl _) (by rw [hreset.view]; rfl)
      (by rw [hreset.view]; exact hstart.heap)
  rw [h.parsed, hreset.view] at hends
  cases hends with
  | misused _ _ _ hrc _ _ _ _ _ _ => rcases hrc with hrc | hrc <;> cases hrc
  | informed _ _ hd =>
    obtain ⟨error, hm⟩ := hd.minded
    have hnone : (parsedWorld inv manageSignals w).state.plaintextArg = none := by
      rw [hm.tracks.state]
      rfl
    exact absurd hnone h.positional
  | declined _ _ _ hd _ => exact absurd rfl hd.rejected.ne_ok
  | accepted hvalid hasks hadm _ h _ => exact ⟨hvalid, hasks, hadm, h⟩

theorem Selected.positionals (h : Selected inv manageSignals w) (hstart : Starts inv w)
    (hshape : saltCliHasValidArgvShape inv = true) :
    (saltCliRunWithStreamsInternal inv false manageSignals w).final.positionals =
      positionalsLoaded (parsedWorld inv manageSignals w) := by
  obtain ⟨hvalid, hasks, hadm, -⟩ := h.accepted hstart
  obtain ⟨hbad | hbad, -⟩ | ⟨-, -, w₁, hend, hclean⟩ :=
    saltCliRunWithStreamsInternal_ends false manageSignals hstart
  · exact absurd (hshape.symm.trans hbad) (by decide)
  · exact absurd hbad (by decide)
  have hcleaned : (saltCliRunWithStreamsInternal inv false manageSignals w).final.positionals =
    w₁.positionals := hclean.positionals
  rw [hcleaned]
  cases hend with
  | uninstalled hrc _ _ => exact absurd h.installed hrc
  | ran _ hrun =>
    cases hrun with
    | misused event hmem hbad _ _ => exact absurd (hvalid event hmem) (by rw [hbad]; decide)
    | informed _ hinformed _ => exact absurd (hasks.symm.trans hinformed) (by decide)
    | declined _ _ hno _ _ => exact absurd hadm hno
    | recorded _ _ _ _ _ _ _ _ hissued =>
      by_cases hrc : (saltCliRunWithStreamsInternal inv false manageSignals w).value = .ok
      · exact (hissued.done hrc).2.2.1
      · exact (hissued.failed hrc).positionals
    | refused _ _ _ hf _ _ => exact hf.positionals

theorem Selected.source (h : Selected inv manageSignals w) (hstart : Starts inv w)
    (hok : (saltCliInputLoadKeyInput (parsedWorld inv manageSignals w)).value = .ok) :
    let v := view (saltCliInputLoadKeyInput (parsedWorld inv manageSignals w)).final
    plaintextSource v = argument w ∧ v.positionals = w.positionals ∧
      v.state.plaintextArg.getD 0 = 0 := by
  intro v
  obtain ⟨-, -, hadm, htracks⟩ := h.accepted hstart
  have hready := optionState_ready inv hadm (v := startView w) hstart.heap hstart.positionals
  have hstdin : (optionState inv).plaintextFromStdin = false :=
    (congrArg CliState.plaintextFromStdin htracks.state).symm.trans h.notStdin
  have harg : (optionState inv).plaintextArg.getD 0 = 0 := by
    change (if inv.positionals = [] then none else some 0).getD 0 = 0
    split_ifs <;> rfl
  rcases saltCliInputLoadKeyInput_loaded htracks hready.tidy hready.stdinKey hready.trimmedKeyInput
    hready.keyOption with ⟨-, -, key, keyId, v', -, hloaded, h'⟩ | ⟨hf, -⟩
  · obtain rfl : v = v' := h'.view
    have hsource := plaintextSource_loaded hready hloaded
    obtain ⟨_, _, _, _, _, _, hstate, -, -⟩ := hloaded.state
    refine ⟨hsource.trans ?_, hloaded.positionals, ?_⟩
    · change (if (optionState inv).plaintextFromStdin then w.input.rest
        else w.positionals.getD ((optionState inv).plaintextArg.getD 0) []) = argument w
      rw [hstdin, harg, if_neg (by decide), argument]
    · rw [hstate]
      exact harg
  · exact absurd hok hf.ne_ok

theorem argument_noNul (hstart : Starts inv w) : 0 ∉ argument w := by
  rw [argument, hstart.positionals]
  cases inv.positionals with
  | nil => exact List.not_mem_nil
  | cons s rest => exact s.noNul

theorem eq_zeros_iff {s : Bytes} (h : 0 ∉ s) : s = List.replicate s.length 0 ↔ s = [] := by
  constructor
  · intro hzero
    cases s with
    | nil => rfl
    | cons b s => exact absurd (by rw [hzero]; simp) h
  · rintro rfl
    rfl

theorem Selected.argument_end (h : Selected inv manageSignals w) (hstart : Starts inv w)
    (hshape : saltCliHasValidArgvShape inv = true) :
    argument (saltCliRunWithStreamsInternal inv false manageSignals w).final =
      if Scrubs (parsedWorld inv manageSignals w) then List.replicate (argument w).length 0
      else argument w := by
  set p := parsedWorld inv manageSignals w with hp
  have hkept : p.positionals = w.positionals := by
    obtain ⟨-, -, -, htracks⟩ := h.accepted hstart
    exact htracks.positionals
  rw [argument, h.positionals hstart hshape, ← hp, positionalsLoaded]
  by_cases hok : (saltCliInputLoadKeyInput p).value = .ok
  · obtain ⟨hsource, hsame, harg⟩ := h.source hstart hok
    rw [if_pos hok, positionalsAfter]
    by_cases hcopies : Copies (saltCliInputLoadKeyInput p).final
        (view (saltCliInputLoadKeyInput p).final) = true
    · rw [if_pos hcopies, if_pos ⟨hok, hcopies⟩, hsource, hsame, harg]
      exact scrubbed_all w.positionals (argument w) rfl
    · rw [if_neg hcopies, if_neg fun hscrubs => hcopies hscrubs.2, hsame, argument]
  · rw [if_neg hok, if_neg fun hscrubs => hok hscrubs.1, hkept, argument]

/-- Without faults the stages get as far as the scrub when the key and the plaintext allow it. -/
theorem Selected.scrubs_iff (h : Selected inv manageSignals w) (hstart : Starts inv w)
    (hfree : FaultFree { w with interrupted := false }) :
    Scrubs (parsedWorld inv manageSignals w) ↔
      (keyTextOf inv w.input.rest).length ≤ saltMaxKeyInputLen ∧
      (∃ key keyId, CliKeyText (optionState inv).keyFormat
        (trim (cstr (keyTextOf inv w.input.rest))) key keyId) ∧
      (argument w).length ≤ saltGithubSecretMaxValueLen := by
  obtain ⟨-, -, hadm, htracks⟩ := h.accepted hstart
  have hready := optionState_ready inv hadm (v := startView w) hstart.heap hstart.positionals
  have hfree' : FaultFree (resetWorld manageSignals w) :=
    (resetWorld_starts hstart h.installed).faultFree hfree
  rcases saltCliInputLoadKeyInput_loaded htracks hready.tidy hready.stdinKey hready.trimmedKeyInput
    hready.keyOption with ⟨hok, hlen, key, keyId, v', hkey, hloaded, h'⟩ | ⟨hf, hwhy⟩
  · obtain ⟨hsource, -, -⟩ := h.source hstart hok
    have hstdin : (view (saltCliInputLoadKeyInput
        (parsedWorld inv manageSignals w)).final).state.plaintextFromStdin = false := by
      obtain ⟨_, _, _, _, _, _, hstate, -, -⟩ := hloaded.state
      rw [h'.view, hstate]
      exact (congrArg CliState.plaintextFromStdin htracks.state).symm.trans h.notStdin
    have halloc := (h'.faultFree hfree').alloc _ (le_refl _)
    have hcopies : Copies (saltCliInputLoadKeyInput (parsedWorld inv manageSignals w)).final
        (view (saltCliInputLoadKeyInput (parsedWorld inv manageSignals w)).final) = true ↔
        (argument w).length ≤ saltGithubSecretMaxValueLen := by
      rw [Copies, hstdin, hsource]
      simp [Option.isSome_iff_ne_none, halloc]
    exact ⟨fun hscrubs => ⟨hlen, ⟨key, keyId, hkey⟩, hcopies.1 hscrubs.2⟩,
      fun h => ⟨hok, hcopies.2 h.2.2⟩⟩
  · exact ⟨fun hscrubs => absurd hscrubs.1 hf.ne_ok,
      fun h => absurd ⟨h.1, h.2.1⟩ (hwhy hfree')⟩

end Scrub

/-- The argument is zero when the run is over just when the stages got as far as the scrub. -/
theorem saltCliRunWithStreamsInternal_scrubs_iff (inv : Invocation) (manageSignals : Bool)
    (w : World) (hstart : Starts inv w) (hshape : saltCliHasValidArgvShape inv = true)
    (h : Selected inv manageSignals w) :
    let r := saltCliRunWithStreamsInternal inv false manageSignals w
    let p := parsedWorld inv manageSignals w
    (argument r.final = List.replicate (argument w).length 0 ↔ argument w = [] ∨ Scrubs p) ∧
    (FaultFree { w with interrupted := false } →
      (Scrubs p ↔ (keyTextOf inv w.input.rest).length ≤ saltMaxKeyInputLen ∧
        (∃ key keyId, CliKeyText (optionState inv).keyFormat
          (trim (cstr (keyTextOf inv w.input.rest))) key keyId) ∧
        (argument w).length ≤ saltGithubSecretMaxValueLen)) := by
  intro r p
  refine ⟨?_, h.scrubs_iff hstart⟩
  rw [h.argument_end hstart hshape]
  by_cases hscrubs : Scrubs p
  · rw [if_pos hscrubs]
    exact iff_of_true rfl (.inr hscrubs)
  · rw [if_neg hscrubs, eq_zeros_iff (argument_noNul hstart), or_iff_left hscrubs]

theorem saltCliRunWithStreamsInternal_scrubs_sample :
    argument (saltCliRunWithStreamsInternal sampleInvocation false false sampleWorld).final =
      [0, 0] := by
  have hselected : Selected sampleInvocation false sampleWorld :=
    ⟨rfl, by decide, by decide, by decide⟩
  obtain ⟨hiff, hinputs⟩ := saltCliRunWithStreamsInternal_scrubs_iff sampleInvocation false
    sampleWorld sampleWorld_starts (by decide) hselected
  refine hiff.2 (.inr ((hinputs (freshWorld_faultFree _ _ _)).2 ⟨by decide, ?_, by decide⟩))
  exact ⟨_, _, .raw (by decide) (by decide) (by decide)⟩

def blankKey : CString := ⟨ascii " ", by decide⟩

/-- `salt -k " " hi`: the sample call with a blank key. -/
def blankKeyInvocation : Invocation where
  argc := 4
  argv := some [sampleInvocation.arg 0, sampleInvocation.arg 1, some blankKey, sampleInvocation.arg 3]
  events := [.key blankKey]
  positionals := sampleInvocation.positionals

/-- The key is refused in front of the scrub, and the argument is still there. -/
theorem saltCliRunWithStreamsInternal_leaves_argument :
    let r := saltCliRunWithStreamsInternal blankKeyInvocation false false sampleWorld
    Selected blankKeyInvocation false sampleWorld ∧ argument r.final = ascii "hi" ∧
      argument r.final ≠ List.replicate (argument sampleWorld).length 0 := by
  intro r
  have hselected : Selected blankKeyInvocation false sampleWorld :=
    ⟨rfl, by decide, by decide, by decide⟩
  have hstart : Starts blankKeyInvocation sampleWorld :=
    ⟨rfl, fun _ hb => absurd hb List.not_mem_nil⟩
  have hno : ¬ Scrubs (parsedWorld blankKeyInvocation false sampleWorld) := by
    intro hscrubs
    obtain ⟨-, ⟨key, keyId, hkey⟩, -⟩ :=
      (hselected.scrubs_iff hstart (freshWorld_faultFree _ _ _)).1 hscrubs
    cases hkey with
    | raw _ _ hblank => exact hblank (by decide)
    | json hformat _ => exact absurd hformat (by decide)
  have hargument : argument r.final = ascii "hi" := by
    rw [hselected.argument_end hstart (by decide), if_neg hno]
    rfl
  refine ⟨hselected, hargument, ?_⟩
  rw [hargument]
  decide

end Salt.ArgvScrubbing
