import Salt.RunCorrect

set_option autoImplicit false

/-!
# What every run keeps to

Hygiene of the heap and the number of diagnostics, over all arguments, inputs
and faults.
-/
namespace Salt.RunContract
open ByteStrings BlockHeap TracedState Sealing SealingCorrect StreamFacts Framing Tracking
  ReportingCorrect Ownership ArgumentsCorrect PipelineCorrect RunCorrect

/-- Every block is wiped over its size and freed once, whatever went wrong; and the cleanup of a
state that was cleaned up does nothing. -/
theorem saltCliRunWithStreamsInternal_disposes (inv : Invocation) (nullStream manageSignals : Bool)
    (w : World) (hstart : Starts inv w) :
    let r := saltCliRunWithStreamsInternal inv nullStream manageSignals w
    (∀ b ∈ r.final.heap, b.Disposed) ∧ r.final.undefined = w.undefined ∧
      (saltCliHasValidArgvShape inv = true → nullStream = false →
        r.final.state = zeroState ∧ (saltCliStateCleanup r.final).final = r.final) := by
  intro r
  rcases saltCliRunWithStreamsInternal_ends nullStream manageSignals hstart with
    ⟨hbad, -, hw⟩ | ⟨-, -, w₁, hend, hclean⟩
  · refine ⟨?_, by rw [hw], fun hshape hnull => ?_⟩
    · rw [hw]
      exact hstart.heap
    · rcases hbad with hbad | hbad
      · exact absurd (hshape.symm.trans hbad) (by decide)
      · exact absurd (hnull.symm.trans hbad) (by decide)
  · exact ⟨hclean.heap, hclean.undefined.trans hend.tidy.2, fun _ _ =>
      ⟨hclean.state, saltCliStateCleanup_again hclean.state⟩⟩

theorem saltCliRunWithStreamsInternal_disposes_sample :
    let r := saltCliRunWithStreamsInternal sampleInvocation false true sampleWorld
    r.final.state = zeroState ∧ ∀ b ∈ r.final.heap, b.Disposed := by
  intro r
  obtain ⟨hheap, -, hstate⟩ := saltCliRunWithStreamsInternal_disposes sampleInvocation false true
    sampleWorld sampleWorld_starts
  exact ⟨(hstate (by decide) rfl).1, hheap⟩

/-- A bad option behind help or version. -/
def MisusedAfterText (inv : Invocation) : Prop :=
  (inv.events.takeWhile Valid).any asksText = true ∧ ∃ e ∈ inv.events, Valid e = false

theorem diagnosed_reported {program : CString} {s s' : OutStream} (h : Diagnosed s s') :
    Reported program s s' := by
  obtain ⟨text, hdiag, hreceived⟩ := h
  exact ⟨text, [], hdiag, .inl rfl, hreceived⟩

theorem usageText_head (program : Bytes) :
    ∃ rest, usageText program = ascii "usage: " ++ rest := by
  delta usageText
  simp only [List.append_assoc]
  exact ⟨_, rfl⟩

theorem not_reported_twice {program : CString} {s s' : OutStream} {text : Bytes}
    (h : s'.records = s.records ++ [text, ascii "error: \n"]) : ¬ Reported program s s' := by
  rintro ⟨text', usage, -, husage, h'⟩
  have hrecords := h'.records
  rw [h, List.append_cancel_left_eq, List.cons.injEq] at hrecords
  rcases husage with rfl | rfl
  · exact absurd hrecords.2 (by simp)
  · have hhead := congrArg List.head? (List.cons.inj hrecords.2).1
    obtain ⟨rest, hrest⟩ := usageText_head program.bytes
    rw [hrest, List.head?_append, show (ascii "usage: ").head? = some 117 by decide,
      Option.some_or] at hhead
    exact absurd hhead (by decide)

theorem stages_reported {inv : Invocation} {manageSignals : Bool} {w w₁ : World} {rc : SaltStatus}
    (h : StagesEnd inv manageSignals w rc w₁) (hacc : w.err.Accepts) (hrc : rc ≠ .ok)
    (hclean : ¬ MisusedAfterText inv) : Reported inv.program w.err w₁.err := by
  cases h with
  | uninstalled _ hf _ => exact diagnosed_reported (hf.diagnosed hacc)
  | ran _ hrun =>
    cases hrun with
    | misused event hmem hbad hm _ =>
      refine diagnosed_reported (hm.once hacc ?_)
      by_contra hasks
      exact hclean ⟨by simpa using hasks, event, hmem, hbad⟩
    | informed _ _ hissued => exact diagnosed_reported ((hissued.failed hrc).diagnosed hacc)
    | declined _ _ _ hd _ => exact hd.reported hacc
    | recorded _ _ _ _ _ _ _ _ hissued => exact diagnosed_reported ((hissued.failed hrc).diagnosed hacc)
    | refused _ _ _ hf _ _ => exact diagnosed_reported (hf.diagnosed hacc)

/-- A run that fails reports once, unless a bad option comes behind help or version. -/
theorem saltCliRunWithStreams_reported_iff (inv : Invocation) (w : World) (hstart : Starts inv w)
    (hshape : saltCliHasValidArgvShape inv = true) (hacc : w.err.Accepts) :
    let r := saltCliRunWithStreams inv false w
    (r.value ≠ .ok → Reported inv.program w.err r.final.err) ↔ ¬ MisusedAfterText inv := by
  intro r
  obtain ⟨hbad, -⟩ | ⟨-, -, w₁, hend, hclean⟩ := saltCliRunWithStreamsInternal_ends false false hstart
  · rcases hbad with hbad | hbad
    · exact absurd (hshape.symm.trans hbad) (by decide)
    · exact absurd hbad (by decide)
  have herr : r.final.err = w₁.err := hclean.err
  rw [herr]
  refine ⟨fun hreported ⟨hasks, event, hmem, hbad⟩ => ?_,
    fun hclear hrc => stages_reported hend hacc hrc hclear⟩
  cases hend with
  | uninstalled hrc _ _ => exact hrc rfl
  | ran _ hrun =>
    cases hrun with
    | misused _ _ _ hm _ =>
      obtain ⟨text, -, hreceived⟩ := hm.twice hacc hasks
      have hne : r.value ≠ .ok := fun hok => by
        rcases hm.status with hrc | hrc <;> exact absurd (hok.symm.trans hrc) (by decide)
      exact not_reported_twice hreceived.records (hreported hne)
    | informed hvalid _ _ => exact absurd (hvalid event hmem) (by rw [hbad]; decide)
    | declined hvalid _ _ _ _ => exact absurd (hvalid event hmem) (by rw [hbad]; decide)
    | recorded hvalid _ _ _ _ _ _ _ _ => exact absurd (hvalid event hmem) (by rw [hbad]; decide)
    | refused hvalid _ _ _ _ _ => exact absurd (hvalid event hmem) (by rw [hbad]; decide)

def bareInvocation : Invocation where
  argc := 1
  argv := some [some programName]
  events := []
  positionals := []

theorem saltCliRunWithStreams_reported_bare :
    let w := freshWorld (calmEnv referenceSodium) [] []
    let r := saltCliRunWithStreams bareInvocation false w
    r.value = .errInput ∧ Reported bareInvocation.program w.err r.final.err := by
  intro w r
  have hvalue : r.value = .errInput := by decide
  have hstart : Starts bareInvocation w := ⟨rfl, fun _ hb => absurd hb List.not_mem_nil⟩
  refine ⟨hvalue, (saltCliRunWithStreams_reported_iff bareInvocation w hstart (by decide)
    fun _ => ⟨0, rfl⟩).2 (fun ⟨hasks, _⟩ => absurd hasks (by decide)) ?_⟩
  rw [hvalue]
  decide

def misusedInvocation : Invocation where
  argc := 4
  argv := some [some programName, some ⟨ascii "-h", by decide⟩,
    some ⟨ascii "-o", by decide⟩, some ⟨ascii "bad", by decide⟩]
  events := [.help, .output ⟨ascii "bad", by decide⟩]
  positionals := []

/-- Two records on an error stream that accepts all: the second is `error: ` and a newline. -/
theorem saltCliRunWithStreams_reports_twice :
    let w := freshWorld (calmEnv referenceSodium) [] []
    let r := saltCliRunWithStreams misusedInvocation false w
    r.value = .errInput ∧
      r.final.err.records = [ascii "error: invalid output format 'bad' (expected text|json)\n",
        ascii "error: \n"] ∧
      ¬ Reported misusedInvocation.program w.err r.final.err := by
  intro w r
  have hvalue : r.value = .errInput := by decide
  have hrecords : r.final.err.records =
      [ascii "error: invalid output format 'bad' (expected text|json)\n", ascii "error: \n"] := by
    decide
  exact ⟨hvalue, hrecords, not_reported_twice hrecords⟩

end Salt.RunContract
