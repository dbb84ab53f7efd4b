import Salt.ReportingCorrect

set_option autoImplicit false

/-!
# Who owns the heap blocks

The five owned pointers of the CLI state with the capacities its cleanup wipes
them over. A state is tidy with a heap when each pointer that is set owns a
live block of that capacity, and every other block was wiped and freed.
-/
namespace Salt.Ownership
open ByteStrings BlockHeap TracedState StreamFacts Framing Tracking ReportingCorrect

inductive Slot where
  | output
  | stdinKey
  | stdinPlaintext
  | argvPlaintextCopy
  | trimmedKeyInput
deriving DecidableEq

def held (s : CliState) : Slot → Option ℕ
  | .output => s.output
  | .stdinKey => s.stdinKey
  | .stdinPlaintext => s.stdinPlaintext
  | .argvPlaintextCopy => s.argvPlaintextCopy
  | .trimmedKeyInput => s.trimmedKeyInput

def capacity (s : CliState) : Slot → ℕ
  | .output => s.outputCap
  | .stdinKey => saltMaxKeyInputLen + 1
  | .stdinPlaintext => saltGithubSecretMaxValueLen + 1
  | .argvPlaintextCopy => s.argvPlaintextCap
  | .trimmedKeyInput => s.trimmedKeyInputCap

structure Tidy (s : CliState) (heap : Heap) : Prop where
  owned : Owned (held s) (capacity s) heap
  parsedKeyB64 : s.parsedKeyB64.length = saltMaxKeyInputLen + 1
  parsedKeyId : s.parsedKeyId.length = saltMaxKeyIdLen + 1
  error : s.error.length = errorSize

section Tidy
variable {s s' : CliState} {heap : Heap}

theorem tidy_zeroState (h : ∀ b ∈ heap, b.Disposed) : Tidy zeroState heap where
  owned :=
    { live := fun o id ho => by cases o <;> simp [held, zeroState] at ho
      single := fun o o' id ho => by cases o <;> simp [held, zeroState] at ho
      settled := fun id b hb => .inl (h b (List.mem_of_getElem? hb)) }
  parsedKeyB64 := List.length_replicate
  parsedKeyId := List.length_replicate
  error := List.length_replicate

theorem Tidy.congr (h : Tidy s heap) (hheld : held s' = held s)
    (hcap : ∀ o, held s o ≠ none → capacity s' o = capacity s o)
    (hkey : s'.parsedKeyB64.length = s.parsedKeyB64.length)
    (hid : s'.parsedKeyId.length = s.parsedKeyId.length)
    (herror : s'.error.length = s.error.length) : Tidy s' heap where
  owned := h.owned.congr hheld hcap
  parsedKeyB64 := hkey.trans h.parsedKeyB64
  parsedKeyId := hid.trans h.parsedKeyId
  error := herror.trans h.error

theorem Tidy.adopt (h : Tidy s heap) {o : Slot} {bytes : Bytes} {n : ℕ} (ho : held s o = none)
    (hlen : bytes.length = n) (hpos : 0 < n)
    (hheld : held s' = Function.update (held s) o (some heap.length))
    (hcap : capacity s' = Function.update (capacity s) o n)
    (hkey : s'.parsedKeyB64.length = s.parsedKeyB64.length)
    (hid : s'.parsedKeyId.length = s.parsedKeyId.length)
    (herror : s'.error.length = s.error.length) : Tidy s' (heap ++ [⟨n, bytes, []⟩]) where
  owned := by
    rw [hheld, hcap]
    exact h.owned.alloc ho hlen hpos
  parsedKeyB64 := hkey.trans h.parsedKeyB64
  parsedKeyId := hid.trans h.parsedKeyId
  error := herror.trans h.error

theorem Tidy.append_disposed (h : Tidy s heap) {b : Block} (hb : b.Disposed) :
    Tidy s (heap ++ [b]) :=
  ⟨h.owned.append_disposed hb, h.parsedKeyB64, h.parsedKeyId, h.error⟩

theorem Tidy.withError (h : Tidy s heap) {error : Bytes} (herror : error.length = s.error.length) :
    Tidy { s with error := error } heap :=
  h.congr (funext fun o => by cases o <;> rfl) (fun o _ => by cases o <;> rfl) rfl rfl herror

theorem Tidy.message (h : Tidy s heap) (message : Bytes) :
    Tidy (Tracking.withError s true message) heap :=
  h.withError (withError_error_length s true message)

end Tidy

theorem bytesAt_append (heap : Heap) (b : Block) : bytesAt (heap ++ [b]) heap.length = b.bytes := by
  simp [bytesAt]

theorem bytesAt_append_of_lt {heap : Heap} (b : Block) {id : ℕ} (h : id < heap.length) :
    bytesAt (heap ++ [b]) id = bytesAt heap id := by
  rw [bytesAt, List.getElem?_append_left h, bytesAt]

theorem bytesAt_modify (heap : Heap) (f : Block → Block) (id i : ℕ) :
    bytesAt (heap.modify id f) i =
      if id = i then heap[i]?.elim [] fun b => (f b).bytes else bytesAt heap i := by
  unfold bytesAt
  rw [List.getElem?_modify]
  split_ifs
  · cases heap[i]? <;> rfl
  · cases heap[i]? <;> rfl

theorem modify_append (heap : Heap) (b : Block) (f : Block → Block) :
    (heap ++ [b]).modify heap.length f = heap ++ [f b] := by
  induction heap with
  | nil => rfl
  | cons c heap ih => simpa using ih

theorem editBlock_last {w₀ w : World} {v : View} {heap : Heap} {b : Block} (h : Tracks w₀ v w)
    (hheap : v.heap = heap ++ [b]) {f : Bytes → Option Bytes} {bytes : Bytes}
    (hf : f b.bytes = some bytes) :
    Ends (editBlock heap.length f) w fun _ w' =>
      Tracks w₀ { v with heap := heap ++ [⟨b.size, bytes, b.events⟩] } w' := by
  have hbytes : f (bytesAt v.heap heap.length) = some bytes := by
    rw [hheap, bytesAt_append]
    exact hf
  refine (editBlock_tracks h hbytes).mono fun _ w' h' => ?_
  rw [hheap, modify_append] at h'
  exact h'

/-- A stage that failed: one diagnostic is out, and the state can be cleaned up. -/
structure Failed (err : OutStream) (undefined : Bool) (positionals : List Bytes) (rc : SaltStatus)
    (w' : World) : Prop where
  ne_ok : rc ≠ .ok
  diagnosed : err.Accepts → Diagnosed err w'.err
  tidy : Tidy w'.state w'.heap
  undefined : w'.undefined = undefined
  positionals : w'.positionals = positionals

section Failing
variable {w₀ w : World} {v : View}

theorem Sent.failed {w' : World} {text error : Bytes} {rc a : SaltStatus} {err : OutStream}
    (h : Sent w₀ v text (a = rc) w' error err) (ha : a = rc ∨ a = .errIo) (hrc : rc ≠ .ok)
    (htext : IsDiagnostic text) (ht : Tidy v.state v.heap) :
    Failed v.err v.undefined v.positionals a w' where
  ne_ok := by
    rcases ha with rfl | rfl
    · exact hrc
    · decide
  diagnosed hacc := by
    rw [h.tracks.err]
    exact ⟨text, htext, (h.accepted hacc).2.2⟩
  tidy := by
    rw [h.tracks.state, h.tracks.heap]
    exact ht.withError h.length
  undefined := h.tracks.undefined
  positionals := h.tracks.positionals

theorem saltCliReportStreamStatus_failed (h : Tracks w₀ v w) (useError : Bool) {rc : SaltStatus}
    {text : Bytes} (hrc : rc ≠ .ok) (htext : IsDiagnostic text) (ht : Tidy v.state v.heap) :
    Ends (saltCliReportStreamStatus .err useError rc text) w (Failed v.err v.undefined v.positionals) :=
  (saltCliReportStreamStatus_sent h useError rc text).mono
    fun _ _ ⟨ha, _, _, hsent⟩ => Sent.failed hsent ha hrc htext ht

theorem saltCliReportStateError_failed (h : Tracks w₀ v w) {rc : SaltStatus} (hrc : rc ≠ .ok)
    (herror : cstr v.state.error ≠ []) (ht : Tidy v.state v.heap) :
    Ends (saltCliReportStateError rc) w (Failed v.err v.undefined v.positionals) :=
  (saltCliReportStateError_sent h rc).mono
    fun _ _ ⟨ha, _, _, hsent⟩ => Sent.failed hsent ha hrc (isDiagnostic_of_error herror) ht

theorem reportIfInterrupted_failed (h : Tracks w₀ v w) (ht : Tidy v.state v.heap) :
    Ends reportIfInterrupted w fun rc w' => (rc = .ok ∧ Tracks w₀ v w') ∨
      (Failed v.err v.undefined v.positionals rc w' ∧ ¬ FaultFree w₀) := by
  refine (saltCliCheckInterrupted_tracks h).bind fun rc w₁ hrc => ?_
  rcases hrc with ⟨rfl, h₁⟩ | ⟨rfl, hfault, h₁⟩
  · exact .ret (.inl ⟨rfl, h₁⟩)
  · refine (saltCliReportStateError_failed h₁ (by decide) (cstr_withError ht.error (by decide))
      (ht.message _)).mono fun _ _ hf => .inr ⟨hf, hfault⟩

end Failing

section Release
variable {w₀ w : World} {v : View}

theorem saltCliSecureFreeRegion_release (h : Tracks w₀ v w) {ι : Type} [DecidableEq ι]
    {ptr : ι → Option ℕ} {cap : ι → ℕ} (hw : Owned ptr cap v.heap) (o : ι) :
    Ends (saltCliSecureFreeRegion (ptr o) (cap o)) w fun _ w' =>
      ∃ heap, Tracks w₀ { v with heap := heap } w' ∧
        Owned (Function.update ptr o none) cap heap := by
  cases hptr : ptr o with
  | none =>
    refine .ret ⟨v.heap, h, ?_⟩
    rw [← hptr, Function.update_eq_self]
    exact hw
  | some id =>
    obtain ⟨b, -, hlive⟩ := hw.live o id hptr
    have hcap : cap o ≠ 0 := by
      have := hlive.2.2.1
      omega
    refine Ends.bind (R := fun _ w' => ∃ f, Tracks w₀ { v with heap := v.heap.modify id f } w' ∧
      ∀ b, b.Live (cap o) → (f b).free.Disposed) (.ite (fun h0 => absurd h0 hcap) fun _ => ?_) ?_
    · refine (sodiumMunlock_tracks h id (cap o)).bind fun rc w₁ h₁ => .ite (fun _ => ?_) fun _ => ?_
      · refine (sodiumMemzero_tracks h₁ id (cap o)).mono fun _ w₂ h₂ =>
          ⟨Block.wipe (cap o) ∘ Block.wipe (cap o), ?_, fun b hb => (disposed_of_live hb).2⟩
        simpa only [List.modify_modify_eq] using h₂
      · exact .ret ⟨_, h₁, fun b hb => (disposed_of_live hb).1⟩
    · rintro _ w₁ ⟨f, h₁, hf⟩
      refine (saltCliFreeImpl_tracks h₁ id).mono fun _ w₂ h₂ => ⟨_, h₂, ?_⟩
      rw [List.modify_modify_eq]
      exact hw.dispose hptr hf

theorem unlockFixedBuffer_tracks (h : Tracks w₀ v w) (buffer : FixedBuffer) :
    Ends (unlockFixedBuffer buffer) w fun _ w' => ∃ s, Tracks w₀ { v with state := s } w' := by
  have hfirst : Ends (atomic fun w => (w.env.munlock w.clock,
      { w with state := wipeFixedBuffer buffer w.state })) w fun _ w' =>
        Tracks w₀ { v with state := wipeFixedBuffer buffer v.state } w' :=
    h.moved (g := fun v => { v with state := wipeFixedBuffer buffer v.state })
      (.atomic (fun _ _ => rfl) (fun _ => rfl) fun _ =>
        advances_of_eq rfl rfl rfl) fun _ => rfl
  refine hfirst.bind fun rc w₁ h₁ => .ite (fun _ => ?_) fun _ => .ret ⟨_, h₁⟩
  exact (modifyState_tracks h₁ _).mono fun _ w₂ h₂ => ⟨_, h₂⟩

theorem unlockFixedBuffers_tracks (h : Tracks w₀ v w) (locked : Bool) :
    Ends (unlockFixedBuffers locked) w fun _ w' => ∃ s, Tracks w₀ { v with state := s } w' := by
  refine .ite (fun _ => ?_) fun _ => .ret ⟨_, h⟩
  refine (unlockFixedBuffer_tracks h _).bind fun _ w₁ ⟨s₁, h₁⟩ => ?_
  refine (unlockFixedBuffer_tracks h₁ _).bind fun _ w₂ ⟨s₂, h₂⟩ => ?_
  exact unlockFixedBuffer_tracks h₂ _

/-- From a tidy state the cleanup disposes of every block and zeroes the state. -/
theorem saltCliStateCleanup_tracks (h : Tracks w₀ v w) (ht : Tidy v.state v.heap) :
    Ends saltCliStateCleanup w fun _ w' => ∃ heap,
      Tracks w₀ { v with state := zeroState, heap := heap } w' ∧ ∀ b ∈ heap, b.Disposed := by
  refine (getState_tracks h).bind fun s w₀' ⟨hs, h₀⟩ => ?_
  subst hs
  refine (saltCliSecureFreeRegion_release h₀ ht.owned .output).bind fun _ w₁ ⟨g₁, h₁, ho₁⟩ => ?_
  refine (saltCliSecureFreeRegion_release h₁ ho₁ .stdinKey).bind fun _ w₂ ⟨g₂, h₂, ho₂⟩ => ?_
  refine (saltCliSecureFreeRegion_release h₂ ho₂ .stdinPlaintext).bind fun _ w₃ ⟨g₃, h₃, ho₃⟩ => ?_
  refine (saltCliSecureFreeRegion_release h₃ ho₃ .argvPlaintextCopy).bind
    fun _ w₄ ⟨g₄, h₄, ho₄⟩ => ?_
  refine (saltCliSecureFreeRegion_release h₄ ho₄ .trimmedKeyInput).bind
    fun _ w₅ ⟨g₅, h₅, ho₅⟩ => ?_
  refine (unlockFixedBuffers_tracks h₅ _).bind fun _ w₆ ⟨s₆, h₆⟩ => ?_
  refine (modifyState_tracks h₆ _).mono fun _ w₇ h₇ => ⟨g₅, h₇, ho₅.all_disposed fun o => ?_⟩
  cases o <;> rfl

/-- A second cleanup finds nothing to do. -/
theorem saltCliStateCleanup_again (h : w.state = zeroState) :
    (saltCliStateCleanup w).final = w := by
  have hstep : Ends saltCliStateCleanup w fun _ w' => w' = w := by
    refine Ends.bind (R := fun s w' => s = zeroState ∧ w' = w) ⟨h, rfl⟩ ?_
    rintro _ w' ⟨rfl, hw⟩
    change { w' with state := zeroState } = w
    rw [hw, ← h]
  exact hstep

end Release
end Salt.Ownership
