import Salt.BoundedReader
import Salt.EndToEnd
import Salt.HeldBuffers

set_option autoImplicit false

/-!
# When the text of the key gets into a buffer

The key is the first secret that a run loads. It gets into a buffer when the
input stream is read whole, or when the option is short enough and can be
copied; in every other case the run ends with no buffer at all.
-/
namespace Salt.KeyBuffering
open ByteStrings BlockHeap TracedState Sealing SealingCorrect Trimming StreamFacts Framing Tracking
  ReportingCorrect Ownership ReadCorrect KeyLoading PipelineCorrect ArgumentsCorrect RunCorrect
  BoundedReader EndToEnd HeldBuffers

def Stored (text : Bytes) (w : World) : Prop :=
  ∃ (id n : ℕ) (tail : Bytes), w.heap[id]? = some ⟨n, text ++ 0 :: tail, []⟩

/-- From here the text of the key gets into a buffer: all of the input stream, or a copy of the
option. -/
def Buffers (w : World) : Prop :=
  if w.state.keyFromStdin then ReadsWhole saltMaxKeyInputLen w
  else (keySource (view w)).length ≤ saltMaxKeyInputLen ∧ w.env.alloc w.clock ≠ none

section Stages
variable {w w' : World} {α : Type} {text : Bytes}

theorem bare_tracks {w₀ : World} {v : View} (h : Bare w) (hw : Tracks w₀ v w')
    (hheld : Ownership.held v.state = Ownership.held w.state)
    (hkey : v.state.parsedKeyB64 = w.state.parsedKeyB64) :
    Bare w' where
  held o := by
    rw [hw.state, hheld]
    exact h.held o
  parsedKeyB64 := by
    rw [hw.state, hkey]
    exact h.parsedKeyB64

theorem Stored.spared {m : Cli α} (h : Stored text w) (hm : ∀ id, Spares id m) :
    Ends m w fun _ w' => Stored text w' := by
  obtain ⟨id, n, tail, hb⟩ := h
  exact ⟨id, n, tail, ((hm id).through w).1 _ hb⟩

theorem Stored.of_append {w₀ : World} {v : View} {heap : Heap} {n : ℕ} {tail : Bytes}
    (h : Tracks w₀ v w) (hheap : v.heap = heap ++ [⟨n, text ++ 0 :: tail, []⟩]) : Stored text w := by
  refine ⟨heap.length, n, tail, ?_⟩
  rw [h.heap, hheap, List.getElem?_append_right (le_refl _), Nat.sub_self]
  rfl

theorem report_bare (h : Bare w) {rc : SaltStatus} (hrc : rc ≠ .ok) (text : Bytes) :
    Ends (saltCliReportStreamStatus .err true rc text) w fun a w' => a ≠ .ok ∧ Bare w' :=
  (saltCliReportStreamStatus_ne_ok w true hrc text).and (h.idle (saltCliReportStreamStatus_idle ..))

theorem saltMaxKeyInputLen_lt (width : SizeWidth) : saltMaxKeyInputLen < sizeMax width := by
  have := modulus_large width
  rw [sizeMax, show saltMaxKeyInputLen = 16384 from rfl]
  omega

theorem readKey_ends (w : World) :
    Ends (cliInputReadStreamLimited saltMaxKeyInputLen) w fun r w' =>
      (r.1 = .ok ↔ ReadsWhole saltMaxKeyInputLen w) ∧
        Answered w (view w) w.heap saltMaxKeyInputLen r w' := by
  have hmax := saltMaxKeyInputLen_lt w.env.width
  exact (cliInputReadStreamLimited_ok_iff hmax).and
    (cliInputReadStreamLimited_answered (Tracks.refl w) (Nat.le_sub_one_of_lt hmax))

theorem loadKeyFromStdin_bare (h : Bare w) (hno : ¬ ReadsWhole saltMaxKeyInputLen w) :
    Ends loadKeyFromStdin w fun rc w' => rc ≠ .ok ∧ Bare w' := by
  refine (readKey_ends w).bind fun r w₁ ⟨hok, hr⟩ => ?_
  rcases hr with ⟨tail, input, rfl, -⟩ | ⟨hrc, hnone, -, message, heap, input, -, -, h₁⟩
  · exact absurd (hok.1 rfl) hno
  · obtain ⟨rc, result⟩ := r
    obtain rfl : result = none := hnone
    have hbare : Bare w₁ := bare_tracks h h₁ (held_ext rfl rfl rfl rfl rfl) rfl
    exact (saltCliReportStateError_ne_ok w₁ hrc).and (hbare.idle (saltCliReportStateError_idle rc))

/-- A stream that is read whole is in its block, trimmed, whatever comes next. -/
theorem loadKeyFromStdin_stored (hread : ReadsWhole saltMaxKeyInputLen w) :
    Ends loadKeyFromStdin w fun _ w' => Stored (trim (cstr w.input.rest)) w' := by
  refine (readKey_ends w).bind fun r w₁ ⟨hok, hr⟩ => ?_
  rcases hr with ⟨tail, input, rfl, -, h₁⟩ | ⟨hrc, -⟩
  · refine (modifyState_tracks h₁ _).bind fun _ w₂ h₂ => ?_
    obtain ⟨tail', htrim, -⟩ := trim_filled w.input.rest tail
    refine (editBlock_last h₂ rfl htrim).bind fun _ w₃ h₃ => ?_
    refine (Stored.of_append h₃ rfl).spared fun id => (readByte_idle ..).spares.bind fun _ =>
      .ite (saltCliReportStreamStatus_idle ..).spares ((modifyState_spares _).bind fun _ => .ret _)
  · exact absurd (hok.2 hread) hrc

theorem copyKeyOption_bare (h : Bare w) {rest : Bytes} (htext : 0 ∉ text)
    (hsource : w.state.keyOption.elim [] (refMemory w) = text ++ 0 :: rest)
    (hno : ¬ (text.length ≤ saltMaxKeyInputLen ∧ w.env.alloc w.clock ≠ none)) :
    Ends copyKeyOption w fun rc w' => rc ≠ .ok ∧ Bare w' := by
  refine Ends.bind_read rfl (Ends.bind_read hsource ?_)
  rw [cliBoundedStrlen_terminated htext]
  refine .ite (fun _ => report_bare h (by decide) _) fun hshort => ?_
  have hle : text.length ≤ saltMaxKeyInputLen := by omega
  have hnone : w.env.alloc w.clock = none := by
    by_contra hsome
    exact hno ⟨hle, hsome⟩
  refine Ends.bind (R := fun r w₁ => r = none ∧ Bare w₁) ?_ fun copy w₁ ⟨hcopy, h₁⟩ => ?_
  · refine (saltCliAllocImpl_tracks (Tracks.refl w) _).mono fun r w₁ hr => ?_
    rcases hr with ⟨hr, -, h₁⟩ | ⟨content, -, hsome, -⟩
    · exact ⟨hr, bare_tracks h h₁ rfl rfl⟩
    · exact absurd (hsome.symm.trans hnone) (by simp)
  · subst hcopy
    exact report_bare h₁ (by decide) _

theorem copyKeyOption_stored (ht : Tidy w.state w.heap) {rest : Bytes} (htext : 0 ∉ text)
    (hsource : w.state.keyOption.elim [] (refBytes w.heap) = text ++ 0 :: rest)
    (hle : text.length ≤ saltMaxKeyInputLen) (halloc : w.env.alloc w.clock ≠ none) :
    Ends copyKeyOption w fun _ w' => Stored (trim text) w' := by
  refine (copyKeyOption_copied (Tracks.refl w) ht htext hsource).mono fun rc w₁ hcopy => ?_
  rcases hcopy with ⟨-, -, tail, -, h₁⟩ | ⟨-, hlong | hnone⟩
  · exact Stored.of_append h₁ rfl
  · exact absurd hle (not_le.2 hlong)
  · exact absurd hnone halloc

theorem saltCliInputLoadKeyInput_bare (h : Bare w)
    (hoption : w.state.keyFromStdin = false → ∃ s, w.state.keyOption = some (.text s))
    (hno : ¬ Buffers w) : Ends saltCliInputLoadKeyInput w fun rc w' => rc ≠ .ok ∧ Bare w' := by
  unfold Buffers at hno
  have hstage : Ends keyFromStdinStage w fun rc w' =>
      (rc ≠ .ok ∧ Bare w') ∨ (w.state.keyFromStdin = false ∧ rc = .ok ∧ w' = w) := by
    refine Ends.bind_read rfl (.ite (fun hk => ?_) fun hk => ?_)
    · rw [if_pos hk] at hno
      exact (loadKeyFromStdin_bare h hno).mono fun _ _ hend => .inl hend
    · exact .ret (.inr ⟨Bool.eq_false_iff.2 hk, rfl, rfl⟩)
  refine hstage.bind fun rc w₁ hend => ?_
  rcases hend with ⟨hrc, h₁⟩ | ⟨hk, rfl, rfl⟩
  · rw [if_pos hrc]
    exact .ret ⟨hrc, h₁⟩
  · obtain ⟨s, hs⟩ := hoption hk
    have hsource : keySource (view w₁) = s.bytes := by simp [keySource, view, hk, hs]
    have hmemory : w₁.state.keyOption.elim [] (refMemory w₁) = s.bytes ++ 0 :: [] := by
      rw [hs]
      rfl
    rw [if_neg (by rw [hk]; decide), hsource] at hno
    refine (copyKeyOption_bare h s.noNul hmemory hno).bind fun rc w₂ h₂ => ?_
    rw [if_pos h₂.1]
    exact .ret h₂

theorem parseStage_spares (id : ℕ) : Spares id (do
    let rc ← parseKeyOfState
    if rc ≠ .ok then saltCliReportStateError rc else reportIfInterrupted) :=
  parseKeyOfState_spares.bind fun rc =>
    .ite (saltCliReportStateError_idle rc).spares reportIfInterrupted_idle.spares

theorem saltCliInputLoadKeyInput_stored (ht : Tidy w.state w.heap)
    (hoption : w.state.keyFromStdin = false → ∃ s, w.state.keyOption = some (.text s))
    (hbuffers : Buffers w) :
    Ends saltCliInputLoadKeyInput w fun _ w' => Stored (trim (cstr (keySource (view w)))) w' := by
  unfold Buffers at hbuffers
  cases hk : w.state.keyFromStdin with
  | true =>
    rw [if_pos hk] at hbuffers
    have hsource : keySource (view w) = w.input.rest := by simp [keySource, view, hk]
    have hstage : Ends keyFromStdinStage w fun _ w' => Stored (trim (cstr w.input.rest)) w' := by
      refine Ends.bind_read rfl ?_
      rw [if_pos hk]
      exact loadKeyFromStdin_stored hbuffers
    rw [hsource]
    refine hstage.bind fun rc w₁ h₁ => h₁.spared fun id => .ite (.ret _)
      (copyKeyOption_spares.bind fun _ => .ite (.ret _) (parseStage_spares id))
  | false =>
    obtain ⟨s, hs⟩ := hoption hk
    have hsource : keySource (view w) = s.bytes := by simp [keySource, view, hk, hs]
    have hterminated : w.state.keyOption.elim [] (refBytes w.heap) = s.bytes ++ 0 :: [] := by
      rw [hs]
      rfl
    have hstage : Ends keyFromStdinStage w fun rc w' => rc = .ok ∧ w' = w := by
      refine Ends.bind_read rfl ?_
      rw [if_neg (by rw [hk]; decide)]
      exact .ret ⟨rfl, rfl⟩
    rw [if_neg (by rw [hk]; decide), hsource] at hbuffers
    rw [hsource, cstr_of_noNul s.noNul]
    refine hstage.bind fun rc w₁ hend => ?_
    obtain ⟨rfl, rfl⟩ := hend
    refine (copyKeyOption_stored ht s.noNul hterminated hbuffers.1 hbuffers.2).bind fun rc w₂ h₂ => ?_
    exact h₂.spared fun id => .ite (.ret _) (parseStage_spares id)

/-- Once in a buffer, the key stays there to the end of the stages. -/
theorem encryptStages_stored (ht : Tidy w.state w.heap)
    (hoption : w.state.keyFromStdin = false → ∃ s, w.state.keyOption = some (.text s))
    (hbuffers : Buffers w) :
    Ends encryptStages w fun _ w' => Stored (trim (cstr (keySource (view w)))) w' :=
  (saltCliInputLoadKeyInput_stored ht hoption hbuffers).bind fun _ _ h₁ => h₁.spared fun _ =>
    .ite (.ret _) (saltCliInputLoadPlaintext_spares.bind fun _ =>
      .ite (.ret _) (saltCliPrepareOutput_spares.bind fun _ => .ite (.ret _) emitStage_idle.spares))

theorem encryptStages_bare (h : Bare w)
    (hoption : w.state.keyFromStdin = false → ∃ s, w.state.keyOption = some (.text s))
    (hno : ¬ Buffers w) : Ends encryptStages w fun _ w' => Bare w' :=
  (saltCliInputLoadKeyInput_bare h hoption hno).bind fun _ _ ⟨hrc, h₁⟩ =>
    .ite (fun _ => .ret h₁) fun hok => absurd hrc hok

/-- Without faults only the length of the key text decides. -/
theorem buffers_iff (hfree : FaultFree w) :
    Buffers w ↔ (keySource (view w)).length ≤ saltMaxKeyInputLen := by
  unfold Buffers
  split_ifs with hk
  · rw [readsWhole_iff (undisturbed_of_faultFree hfree) (saltMaxKeyInputLen_lt _), keySource]
    simp [view, hk]
  · exact and_iff_left (hfree.alloc _ (le_refl _))

theorem buffers_congr (hstate : w'.state = w.state) (henv : w'.env = w.env)
    (hclock : w'.clock = w.clock) (hinput : w'.input = w.input)
    (hflag : w'.interrupted = w.interrupted) (hint : w'.sigint = w.sigint)
    (hterm : w'.sigterm = w.sigterm) : Buffers w' ↔ Buffers w := by
  have hkey : keySource (view w') = keySource (view w) := by
    change keySource ⟨w'.state, _, _, w'.input, _, _⟩ = keySource ⟨w.state, _, _, w.input, _, _⟩
    rw [hstate, hinput]
    rfl
  unfold Buffers
  rw [hkey, hstate, henv, hclock, readsWhole_congr henv hclock hinput hflag hint hterm]

end Stages

/-- The arguments ask for an encryption and pass every check. -/
structure Encrypts (inv : Invocation) : Prop where
  valid : ∀ e ∈ inv.events, Valid e = true
  asks : inv.events.any asksText = false
  admissible : Admissible inv (withOptions inv.events initState)

section Arguments
variable {inv : Invocation} {w : World}

/-- Without a report nothing but the state is changed, and no call is made. -/
def Silent (m : Cli SaltStatus) : Prop :=
  ∀ w, Ends m w fun rc w' => rc = .ok → ∃ s, w' = { w with state := s }

theorem report_silent (text : Bytes) : Silent (saltCliReportStreamStatus .err true .errInput text) :=
  fun w => (saltCliReportStreamStatus_ne_ok w true (by decide) text).mono
    fun _ _ hne hok => absurd hok hne

theorem handleOptions_silent (events : List OptEvent) : Silent (handleOptions events) := by
  have hone (event : OptEvent) : Silent (saltCliHandleOption event) := by
    refine fun w => Ends.bind_read rfl ?_
    cases handleOption w.state event with
    | ok s => exact fun _ => ⟨s, rfl⟩
    | error text => exact report_silent text w
  induction events with
  | nil => exact fun w => .ret fun _ => ⟨w.state, rfl⟩
  | cons event rest ih =>
    refine fun w => (hone event w).bind fun rc w₁ h₁ => .ite (fun hne => .ret fun hok => ?_) fun hok => ?_
    · exact absurd hok hne
    · obtain ⟨s, rfl⟩ := h₁ (not_not.1 hok)
      exact ih _

theorem checkOptions_silent (inv : Invocation) : Silent (checkOptions inv) := by
  intro w
  have hreported {m : Cli SaltStatus} {w₁ : World} (h : Ends m w₁ fun rc _ => rc ≠ .ok) :
      Ends m w₁ fun rc w' => rc = .ok → ∃ s, w' = { w with state := s } :=
    h.mono fun _ _ hne hok => absurd hok hne
  refine Ends.bind_read rfl (.ite (fun _ => ?_) fun _ => .ite (fun _ => report_silent _ w) fun _ =>
    .ite (fun _ => report_silent _ w) fun _ => .ite (fun _ => ?_) fun _ => ?_)
  · exact hreported (reportWithUsage_ne_ok _ _ w)
  · exact Ends.then fun _ w₁ => hreported (reportWithUsage_ne_ok _ _ w₁)
  · refine Ends.bind (R := fun _ w₁ => ∃ s, w₁ = { w with state := s }) ⟨_, rfl⟩ fun _ w₁ hw₁ => ?_
    refine Ends.bind_read rfl (.ite (fun _ => ?_) fun _ => .ret fun _ => hw₁)
    exact hreported (saltCliReportStreamStatus_ne_ok w₁ true (by decide) _)

theorem withOptions_shows (events : List OptEvent) :
    ((withOptions events initState).showHelp || (withOptions events initState).showVersion) =
      events.any asksText := by
  rw [withOptions_asks, show (initState.showHelp || initState.showVersion) = false from rfl,
    Bool.false_or]

theorem parse_silent (hs : w.state = initState) (hencrypts : Encrypts inv) :
    Ends (saltCliArgsParseArguments inv) w fun rc w' =>
      rc = .ok → ∃ s, w' = { w with state := s } := by
  refine ((handleOptions_silent inv.events w).and
    (handleOptions_applied (Tracks.refl w) inv.events)).bind fun rc w₁ ⟨hsilent, happlied⟩ => ?_
  rcases happlied with ⟨-, rfl, h₁⟩ | ⟨⟨event, hmem, hbad⟩, -⟩
  · have hshows : (w₁.state.showHelp || w₁.state.showVersion) = false := by
      rw [h₁.state, ← hencrypts.asks, ← withOptions_shows, ← hs]
      rfl
    rw [Bool.or_eq_false_iff] at hshows
    obtain ⟨s, rfl⟩ := hsilent rfl
    refine Ends.bind_read rfl ?_
    rw [if_neg (by rw [hshows.1]; decide), if_neg (by rw [hshows.2]; decide)]
    exact checkOptions_silent inv _
  · exact absurd (hencrypts.valid event hmem) (by rw [hbad]; decide)

/-- The parser goes on to the stages just when the arguments ask for an encryption, and then it has
done nothing but set the options. -/
theorem parse_goes_on (hs : w.state = initState) (hheap : ∀ b ∈ w.heap, b.Disposed) :
    Ends (saltCliArgsParseArguments inv) w fun rc w' =>
      (Encrypts inv ∧ (rc ≠ .ok || w'.state.showHelp || w'.state.showVersion) = false ∧
        w' = { w with state := optionState inv }) ∨
      (¬ Encrypts inv ∧ (rc ≠ .ok || w'.state.showHelp || w'.state.showVersion) = true ∧
        Aside w w') := by
  have haside : Ends (saltCliArgsParseArguments inv) w fun _ w' => Aside w w' :=
    ((saltCliArgsParseArguments_idle inv).through w).1
  have hsilent : Ends (saltCliArgsParseArguments inv) w fun rc w' =>
      Encrypts inv → rc = .ok → ∃ s, w' = { w with state := s } := fun h => parse_silent hs h
  have hshows := withOptions_shows inv.events
  refine ((haside.and hsilent).and (saltCliArgsParseArguments_ends (Tracks.refl w) hs hheap)).mono
    fun rc w₁ ⟨⟨haside, hsilent⟩, hparse⟩ => ?_
  cases hparse with
  | misused event hmem hbad hrc text error err hdiag hsent hout =>
    refine .inr ⟨fun h => absurd (h.valid event hmem) (by rw [hbad]; decide), ?_, haside⟩
    rcases hrc with rfl | rfl <;> rfl
  | informed _ hinformed h =>
    refine .inr ⟨fun h' => absurd (h'.asks.symm.trans hinformed) (by decide), ?_, haside⟩
    obtain ⟨error, hm⟩ := h.minded
    have hshown : (w₁.state.showHelp || w₁.state.showVersion) = true := by
      rw [hm.tracks.state]
      exact hshows.trans hinformed
    rw [Bool.or_assoc, hshown, Bool.or_true]
  | declined _ _ hno hd _ =>
    refine .inr ⟨fun h => hno h.admissible, ?_, haside⟩
    rw [decide_eq_true hd.rejected.ne_ok]
    rfl
  | accepted hvalid hnone hadm hrc h₁ _ =>
    have hencrypts : Encrypts inv := ⟨hvalid, hnone, hadm⟩
    obtain ⟨s, hw₁⟩ := hsilent hencrypts hrc
    have hstate : s = optionState inv := (congrArg World.state hw₁).symm.trans h₁.state
    subst hstate
    refine .inl ⟨hencrypts, ?_, hw₁⟩
    have hshown : (w₁.state.showHelp || w₁.state.showVersion) = false := by
      rw [h₁.state]
      exact hshows.trans hnone
    rw [Bool.or_assoc, hshown, hrc]
    rfl

theorem runArguments_bare (hs : w.state = initState) (hheap : ∀ b ∈ w.heap, b.Disposed)
    (hpositionals : w.positionals = inv.positionals.map CString.bytes)
    (hno : ¬ (Encrypts inv ∧ Buffers { w with state := optionState inv })) :
    Ends (runArguments inv) w fun _ w' => Bare w' := by
  have hbare : Bare w := ⟨fun o => by rw [hs]; cases o <;> rfl, _, by rw [hs]; rfl⟩
  refine (parse_goes_on hs hheap).bind fun rc w₁ hend => Ends.bind_read rfl ?_
  rcases hend with ⟨hencrypts, hstop, rfl⟩ | ⟨-, hstop, haside⟩
  · rw [if_neg (by rw [hstop]; decide)]
    have hready := optionState_ready inv hencrypts.admissible (v := view w) hheap hpositionals
    exact encryptStages_bare ⟨fun o => by cases o <;> rfl, _, rfl⟩ hready.keyOption
      fun hbuffers => hno ⟨hencrypts, hbuffers⟩
  · rw [if_pos hstop]
    exact (hbare.aside haside).idle (finishArguments_idle _ _)

theorem runArguments_stored (hs : w.state = initState) (hheap : ∀ b ∈ w.heap, b.Disposed)
    (hpositionals : w.positionals = inv.positionals.map CString.bytes) (hencrypts : Encrypts inv)
    (hbuffers : Buffers { w with state := optionState inv }) :
    Ends (runArguments inv) w fun _ w' => Stored (trim (cstr (keyTextOf inv w.input.rest))) w' := by
  refine (parse_goes_on hs hheap).bind fun rc w₁ hend => Ends.bind_read rfl ?_
  rcases hend with ⟨-, hstop, rfl⟩ | ⟨hno, -⟩
  · rw [if_neg (by rw [hstop]; decide)]
    have hready := optionState_ready inv hencrypts.admissible (v := view w) hheap hpositionals
    exact encryptStages_stored hready.tidy hready.keyOption hbuffers
  · exact absurd hencrypts hno

end Arguments
end Salt.KeyBuffering
