import Salt.ReadCorrect
import Salt.SealingCorrect

set_option autoImplicit false

/-!
# Every way out of the bounded reader

The reader polls the interruption flag twice, before the allocation and behind
`fread`. Its exits are listed with the status, the number of calls made and the
stream left behind; the flag at each exit is the one the signals that arrived
meanwhile have set.
-/
namespace Salt.BoundedReader
open ByteStrings BlockHeap TracedState Sealing StreamFacts Framing Tracking ReadCorrect

def handled (w : World) (t : ℕ) : Bool :=
  (w.env.signals t .sigint && decide (w.sigint = .saltHandler)) ||
    (w.env.signals t .sigterm && decide (w.sigterm = .saltHandler))

def flagBehind (w : World) (n : ℕ) : Bool :=
  w.interrupted || (List.range n).any fun i => handled w (w.clock + i)

theorem flagBehind_zero (w : World) : flagBehind w 0 = w.interrupted := by
  simp [flagBehind]

theorem flagBehind_succ (w : World) (n : ℕ) :
    flagBehind w (n + 1) = (flagBehind w n || handled w (w.clock + n)) := by
  simp [flagBehind, List.range_succ, Bool.or_assoc]

theorem flagBehind_mono {w : World} {m n : ℕ} (hle : m ≤ n) (h : flagBehind w n = false) :
    flagBehind w m = false := by
  induction n, hle using Nat.le_induction with
  | base => exact h
  | succ n _ ih =>
    rw [flagBehind_succ, Bool.or_eq_false_iff] at h
    exact ih h.1

/-- `w'` is `n` calls behind `w`, with this input stream. -/
structure Behind (w : World) (n : ℕ) (input : InStream) (w' : World) : Prop where
  env : w'.env = w.env
  clock : w'.clock = w.clock + n
  sigint : w'.sigint = w.sigint
  sigterm : w'.sigterm = w.sigterm
  interrupted : w'.interrupted = flagBehind w n
  input : w'.input = input

section Calls
variable {w w₁ : World} {n : ℕ} {input input' : InStream} {α : Type}

theorem Behind.refl (w : World) : Behind w 0 w.input w :=
  ⟨rfl, rfl, rfl, rfl, (flagBehind_zero w).symm, rfl⟩

theorem Behind.deliver (h : Behind w n input w₁) :
    w₁.deliver.interrupted = flagBehind w (n + 1) := by
  simp only [World.deliver, flagBehind_succ, handled, h.interrupted, h.env, h.clock, h.sigint,
    h.sigterm, Bool.or_assoc]

theorem Behind.call (h : Behind w n input w₁) {f : World → α × World} {t : InStream}
    (hframe : frame (f w₁.deliver).2 = frame w₁.deliver) (hinput : (f w₁.deliver).2.input = t) :
    Ends (atomic f) w₁ fun a w₂ => a = (f w₁.deliver).1 ∧ Behind w (n + 1) t w₂ := by
  simp only [frame, Prod.mk.injEq] at hframe
  obtain ⟨henv, hclock, hflag, hdisp, -⟩ := hframe
  refine ⟨rfl, henv.trans h.env, ?_, hdisp.1.trans h.sigint, hdisp.2.trans h.sigterm,
    hflag.trans h.deliver, hinput⟩
  exact (congrArg (· + 1) hclock).trans (congrArg (· + 1) h.clock)

theorem saltCliAllocImpl_behind (h : Behind w n input w₁) (size : ℕ) :
    Ends (saltCliAllocImpl size) w₁ fun r w₂ =>
      ((r = none ∧ w.env.alloc (w.clock + n) = none) ∨
        ∃ id, r = some id ∧ w.env.alloc (w.clock + n) ≠ none) ∧ Behind w (n + 1) input w₂ := by
  rw [← h.env, ← h.clock]
  cases halloc : w₁.env.alloc w₁.clock with
  | none =>
    refine (h.call (t := input) ?_ ?_).mono fun r w₂ ⟨hr, h₂⟩ => ⟨.inl ⟨?_, rfl⟩, h₂⟩
    · simp only [World.deliver, halloc]
      rfl
    · simp only [World.deliver, halloc]
      exact h.input
    · rw [hr]
      simp only [World.deliver, halloc]
  | some content =>
    refine (h.call (t := input) ?_ ?_).mono fun r w₂ ⟨hr, h₂⟩ =>
      ⟨.inr ⟨w₁.heap.length, ?_, by simp⟩, h₂⟩
    · simp only [World.deliver, halloc]
      rfl
    · simp only [World.deliver, halloc]
      exact h.input
    · rw [hr]
      simp only [World.deliver, halloc]

theorem saltCliSetError_behind (h : Behind w n input w₁) (useError : Bool) (message : Bytes)
    (rc : SaltStatus) :
    Ends (saltCliSetError useError message rc) w₁ fun a w₂ => a = rc ∧ Behind w n input w₂ :=
  ⟨rfl, h.env, h.clock, h.sigint, h.sigterm, h.interrupted, h.input⟩

theorem saltCliCheckInterrupted_behind (h : Behind w n input w₁) :
    Ends saltCliCheckInterrupted w₁ fun rc w₂ =>
      rc = (if flagBehind w (n + 1) then .errSignal else .ok) ∧ Behind w (n + 1) input w₂ := by
  have hload : Ends loadInterrupted w₁ fun a w₂ => a = flagBehind w (n + 1) ∧
      Behind w (n + 1) input w₂ := (h.call rfl h.input).mono fun a w₂ ⟨ha, h₂⟩ =>
    ⟨ha.trans h.deliver, h₂⟩
  refine hload.bind fun a w₂ ⟨ha, h₂⟩ => ?_
  subst ha
  refine .ite (fun hflag => ?_) fun hflag => ?_
  · rw [if_pos hflag]
    exact saltCliSetError_behind h₂ _ _ _
  · rw [if_neg hflag]
    exact .ret ⟨rfl, h₂⟩

/-- The calls of a release: a failed unlock is followed by a wipe. -/
def releaseSteps (w : World) (n : ℕ) : ℕ := if w.env.munlock (w.clock + n) ≠ 0 then 3 else 2

theorem cliSecureReleaseBuffer_behind (h : Behind w n input w₁) (buffer len : ℕ) :
    Ends (cliSecureReleaseBuffer buffer len) w₁ fun _ w₂ =>
      Behind w (n + releaseSteps w n) input w₂ := by
  refine (h.call (f := fun w => (w.env.munlock w.clock,
    { w with heap := w.heap.modify buffer (Block.wipe len) })) rfl h.input).bind
    fun rc w₂ ⟨hrc, h₂⟩ => ?_
  have hunlock : rc = w.env.munlock (w.clock + n) := by
    rw [hrc, ← h.env, ← h.clock]
    rfl
  unfold releaseSteps
  rw [← hunlock]
  refine .ite (fun hne => ?_) fun heq => ?_
  · rw [if_pos hne]
    refine (h₂.call rfl h₂.input).bind fun _ w₃ ⟨_, h₃⟩ => ?_
    exact (h₃.call rfl h₃.input).mono fun _ _ h => h.2
  · rw [if_neg heq]
    exact (h₂.call rfl h₂.input).mono fun _ _ h => h.2

end Calls

section Exits
variable {maxLen : ℕ} {w w₁ : World}

abbrev readStream (maxLen : ℕ) (w : World) : InStream := (w.input.fread maxLen).2

abbrev probedStream (maxLen : ℕ) (w : World) : InStream := (readStream maxLen w).fgetc.2

structure Allocated (w : World) : Prop where
  flag : flagBehind w 1 = false
  alloc : w.env.alloc (w.clock + 1) ≠ none

/-- The second poll passes too, and `fread` left no error. -/
structure ReadDone (maxLen : ℕ) (w : World) : Prop where
  allocated : Allocated w
  flag : flagBehind w 5 = false
  errorFlag : (readStream maxLen w).errorFlag = false

/-- The exits, with the status, the number of calls and the stream at each of them. -/
inductive ReadEnds (maxLen : ℕ) (w : World) : SaltStatus → ℕ → InStream → Prop where
  | interruptedBefore (hflag : flagBehind w 1 = true) : ReadEnds maxLen w .errSignal 1 w.input
  | unallocated (hflag : flagBehind w 1 = false) (halloc : w.env.alloc (w.clock + 1) = none) :
      ReadEnds maxLen w .errInternal 2 w.input
  | interrupted (ha : Allocated w) (hflag : flagBehind w 5 = true) :
      ReadEnds maxLen w .errSignal (5 + releaseSteps w 5) (readStream maxLen w)
  | unread (ha : Allocated w) (hflag : flagBehind w 5 = false)
      (herror : (readStream maxLen w).errorFlag = true) :
      ReadEnds maxLen w .errIo (5 + releaseSteps w 5) (readStream maxLen w)
  | short (hd : ReadDone maxLen w) (hlen : (w.input.fread maxLen).1.length ≠ maxLen) :
      ReadEnds maxLen w .ok 5 (readStream maxLen w)
  | unprobed (hd : ReadDone maxLen w) (hlen : (w.input.fread maxLen).1.length = maxLen)
      (hnone : (readStream maxLen w).fgetc.1 = none)
      (herror : (probedStream maxLen w).errorFlag = true) :
      ReadEnds maxLen w .errIo (6 + releaseSteps w 6) (probedStream maxLen w)
  | full (hd : ReadDone maxLen w) (hlen : (w.input.fread maxLen).1.length = maxLen)
      (hnone : (readStream maxLen w).fgetc.1 = none)
      (herror : (probedStream maxLen w).errorFlag = false) :
      ReadEnds maxLen w .ok 6 (probedStream maxLen w)
  | unrestored (hd : ReadDone maxLen w) (hlen : (w.input.fread maxLen).1.length = maxLen)
      (c : UInt8) (hsome : (readStream maxLen w).fgetc.1 = some c)
      (hfail : ((probedStream maxLen w).ungetc c).1 = false) :
      ReadEnds maxLen w .errIo (7 + releaseSteps w 7) ((probedStream maxLen w).ungetc c).2
  | tooLong (hd : ReadDone maxLen w) (hlen : (w.input.fread maxLen).1.length = maxLen)
      (c : UInt8) (hsome : (readStream maxLen w).fgetc.1 = some c)
      (hback : ((probedStream maxLen w).ungetc c).1 = true) :
      ReadEnds maxLen w .errInput (7 + releaseSteps w 7) ((probedStream maxLen w).ungetc c).2

def Exits (maxLen : ℕ) (w : World) (r : ReadResult) (w' : World) : Prop :=
  ∃ n input, ReadEnds maxLen w r.1 n input ∧ Behind w n input w'

theorem failRead_exits {n : ℕ} {input : InStream} (h : Behind w n input w₁) (buffer : ℕ)
    (message : Bytes) {rc : SaltStatus} (hend : ReadEnds maxLen w rc (n + releaseSteps w n) input) :
    Ends (failRead buffer maxLen message rc) w₁ (Exits maxLen w) := by
  refine (saltCliSetError_behind h true message rc).bind fun rc' w₂ ⟨hrc, h₂⟩ => ?_
  subst hrc
  exact (cliSecureReleaseBuffer_behind h₂ _ _).bind fun _ w₃ h₃ => .ret ⟨_, _, hend, h₃⟩

theorem finishRead_exits {n : ℕ} {input : InStream} (h : Behind w n input w₁)
    (buffer bytesRead : ℕ) (hend : ReadEnds maxLen w .ok n input) :
    Ends (finishRead buffer bytesRead) w₁ (Exits maxLen w) := by
  refine Ends.bind (R := fun _ w' => Behind w n input w') ?_ fun _ w₂ h₂ => .ret ⟨_, _, hend, h₂⟩
  unfold Ends editBlock
  rw [update_final]
  split
  · exact ⟨h.env, h.clock, h.sigint, h.sigterm, h.interrupted, h.input⟩
  · exact ⟨h.env, h.clock, h.sigint, h.sigterm, h.interrupted, h.input⟩

theorem probeRead_exits (h : Behind w 5 (readStream maxLen w) w₁) (hd : ReadDone maxLen w)
    (hlen : (w.input.fread maxLen).1.length = maxLen) (buffer : ℕ) :
    Ends (probeRead buffer maxLen) w₁ (Exits maxLen w) := by
  have hprobe : Ends saltCliFgetcImpl w₁ fun a w₂ => a = (readStream maxLen w).fgetc.1 ∧
      Behind w 6 (probedStream maxLen w) w₂ :=
    (h.call rfl (congrArg (fun s => s.fgetc.2) h.input)).mono
      fun a w₂ ⟨ha, h₂⟩ => ⟨ha.trans (congrArg (fun s => s.fgetc.1) h.input), h₂⟩
  refine hprobe.bind fun nextChar w₂ ⟨hchar, h₂⟩ => ?_
  cases nextChar with
  | none =>
    refine Ends.bind_read (congrArg InStream.errorFlag h₂.input) ?_
    refine .ite (fun herror => ?_) fun herror => ?_
    · exact failRead_exits h₂ _ _ (.unprobed hd hlen hchar.symm herror)
    · exact finishRead_exits h₂ _ _ (.full hd hlen hchar.symm (Bool.eq_false_iff.2 herror))
  | some c =>
    have hback : Ends (saltCliUngetcImpl c) w₂ fun a w₃ =>
        a = ((probedStream maxLen w).ungetc c).1 ∧
          Behind w 7 ((probedStream maxLen w).ungetc c).2 w₃ :=
      (h₂.call rfl (congrArg (fun s => (s.ungetc c).2) h₂.input)).mono
        fun a w₃ ⟨ha, h₃⟩ => ⟨ha.trans (congrArg (fun s => (s.ungetc c).1) h₂.input), h₃⟩
    refine hback.bind fun restored w₃ ⟨hrestored, h₃⟩ => .ite (fun hfail => ?_) fun hok => ?_
    · rw [hrestored, Bool.not_eq_true'] at hfail
      exact failRead_exits h₃ _ _ (.unrestored hd hlen c hchar.symm hfail)
    · rw [hrestored, Bool.not_eq_true', Bool.not_eq_false] at hok
      exact failRead_exits h₃ _ _ (.tooLong hd hlen c hchar.symm hok)

theorem fillBuffer_exits (h : Behind w 2 w.input w₁) (ha : Allocated w) (buffer : ℕ) :
    Ends (fillBuffer buffer maxLen) w₁ (Exits maxLen w) := by
  refine (h.call rfl h.input).bind fun _ w₂ ⟨_, h₂⟩ => ?_
  have hread : Ends (saltCliFreadImpl buffer maxLen) w₂ fun a w₃ =>
      a = (w.input.fread maxLen).1.length ∧ Behind w 4 (readStream maxLen w) w₃ :=
    (h₂.call rfl (congrArg (fun s => (s.fread maxLen).2) h₂.input)).mono
      fun a w₃ ⟨ha, h₃⟩ => ⟨ha.trans (congrArg (fun s => (s.fread maxLen).1.length) h₂.input), h₃⟩
  refine hread.bind fun bytesRead w₃ ⟨hbytes, h₃⟩ => ?_
  refine (saltCliCheckInterrupted_behind h₃).bind fun rc w₄ ⟨hrc, h₄⟩ => ?_
  cases hflag : flagBehind w 5 with
  | true =>
    rw [hflag, if_pos rfl] at hrc
    rw [hrc, if_pos (by decide)]
    exact (cliSecureReleaseBuffer_behind h₄ _ _).bind fun _ w₅ h₅ =>
      .ret ⟨_, _, .interrupted ha hflag, h₅⟩
  | false =>
    rw [hflag, if_neg (by decide)] at hrc
    rw [hrc, if_neg (by decide)]
    refine Ends.bind_read (congrArg InStream.errorFlag h₄.input) ?_
    refine .ite (fun herror => ?_) fun herror => ?_
    · exact failRead_exits h₄ _ _ (.unread ha hflag herror)
    · have hd : ReadDone maxLen w := ⟨ha, hflag, Bool.eq_false_iff.2 herror⟩
      refine .ite (fun hfull => ?_) fun hshort => ?_
      · exact probeRead_exits h₄ hd (hbytes ▸ hfull) _
      · exact finishRead_exits h₄ _ _ (.short hd (hbytes ▸ hshort))

theorem cliInputReadStreamLimited_exits (hmax : maxLen < sizeMax w.env.width) :
    Ends (cliInputReadStreamLimited maxLen) w (Exits maxLen w) := by
  refine Ends.bind_read rfl (.ite (fun hlt => absurd hlt (by omega)) fun _ => ?_)
  refine (saltCliCheckInterrupted_behind (Behind.refl _)).bind fun rc w₁ ⟨hrc, h₁⟩ => ?_
  cases hflag : flagBehind _ 1 with
  | true =>
    rw [hflag, if_pos rfl] at hrc
    rw [hrc, if_pos (by decide)]
    exact .ret ⟨_, _, .interruptedBefore hflag, h₁⟩
  | false =>
    rw [hflag, if_neg (by decide)] at hrc
    rw [hrc, if_neg (by decide)]
    refine (saltCliAllocImpl_behind h₁ _).bind fun buffer w₂ ⟨hbuffer, h₂⟩ => ?_
    rcases hbuffer with ⟨rfl, hnone⟩ | ⟨id, rfl, hsome⟩
    · refine (saltCliSetError_behind h₂ _ _ _).bind fun rc w₃ ⟨hrc, h₃⟩ => .ret ⟨2, _, ?_, h₃⟩
      rw [hrc]
      exact .unallocated hflag hnone
    · exact fillBuffer_exits h₂ ⟨hflag, hsome⟩ id

/-- The whole stream gets into the buffer: no poll finds a signal, there is a buffer, no read fails
and the stream ends within the limit. -/
structure ReadsWhole (maxLen : ℕ) (w : World) : Prop where
  done : ReadDone maxLen w
  ends : (w.input.fread maxLen).1.length = maxLen →
    (readStream maxLen w).fgetc.1 = none ∧ (probedStream maxLen w).errorFlag = false

theorem readsWhole_congr {w' : World} (henv : w'.env = w.env) (hclock : w'.clock = w.clock)
    (hinput : w'.input = w.input) (hflag : w'.interrupted = w.interrupted)
    (hint : w'.sigint = w.sigint) (hterm : w'.sigterm = w.sigterm) :
    ReadsWhole maxLen w' ↔ ReadsWhole maxLen w := by
  have hbehind (n : ℕ) : flagBehind w' n = flagBehind w n := by
    simp only [flagBehind, handled, henv, hclock, hflag, hint, hterm]
  have hread : readStream maxLen w' = readStream maxLen w := by rw [readStream, hinput]
  have hprobe : probedStream maxLen w' = probedStream maxLen w := by rw [probedStream, hread]
  constructor
  · rintro ⟨⟨⟨hfirst, halloc⟩, hpolled, herror⟩, hends⟩
    rw [hbehind] at hfirst hpolled
    rw [henv, hclock] at halloc
    rw [hread] at herror
    rw [hread, hprobe, hinput] at hends
    exact ⟨⟨⟨hfirst, halloc⟩, hpolled, herror⟩, hends⟩
  · rintro ⟨⟨⟨hfirst, halloc⟩, hpolled, herror⟩, hends⟩
    rw [← hbehind] at hfirst hpolled
    rw [← henv, ← hclock] at halloc
    rw [← hread] at herror
    rw [← hread, ← hprobe, ← hinput] at hends
    exact ⟨⟨⟨hfirst, halloc⟩, hpolled, herror⟩, hends⟩

theorem ReadEnds.ok_iff {rc : SaltStatus} {n : ℕ} {input : InStream}
    (h : ReadEnds maxLen w rc n input) : rc = .ok ↔ ReadsWhole maxLen w := by
  cases h with
  | interruptedBefore hflag =>
    refine iff_of_false (by decide) fun hr => ?_
    exact ne_true_of_eq_false hr.done.allocated.flag hflag
  | unallocated _ halloc => exact iff_of_false (by decide) fun hr => hr.done.allocated.alloc halloc
  | interrupted _ hflag =>
    exact iff_of_false (by decide) fun hr => ne_true_of_eq_false hr.done.flag hflag
  | unread _ _ herror =>
    exact iff_of_false (by decide) fun hr => ne_true_of_eq_false hr.done.errorFlag herror
  | short hd hlen => exact iff_of_true rfl ⟨hd, fun hfull => absurd hfull hlen⟩
  | unprobed _ hlen _ herror =>
    exact iff_of_false (by decide) fun hr => ne_true_of_eq_false (hr.ends hlen).2 herror
  | full hd _ hnone herror => exact iff_of_true rfl ⟨hd, fun _ => ⟨hnone, herror⟩⟩
  | unrestored _ hlen c hsome _ =>
    refine iff_of_false (by decide) fun hr => ?_
    rw [(hr.ends hlen).1] at hsome
    cases hsome
  | tooLong _ hlen c hsome _ =>
    refine iff_of_false (by decide) fun hr => ?_
    rw [(hr.ends hlen).1] at hsome
    cases hsome

theorem cliInputReadStreamLimited_ok_iff (hmax : maxLen < sizeMax w.env.width) :
    Ends (cliInputReadStreamLimited maxLen) w fun r _ => r.1 = .ok ↔ ReadsWhole maxLen w :=
  (cliInputReadStreamLimited_exits hmax).mono fun _ _ ⟨_, _, hend, _⟩ => hend.ok_iff

end Exits

/-- No allocation fails, no signal is handled, and the stream reads and takes back. -/
structure Undisturbed (w : World) : Prop where
  alloc : ∀ t, w.clock ≤ t → w.env.alloc t ≠ none
  flag : ∀ n, flagBehind w n = false
  input : w.input.Reliable

section Reliable
variable {maxLen : ℕ} {w : World} {s : InStream}

theorem undisturbed_of_faultFree (h : FaultFree w) : Undisturbed w where
  alloc := h.alloc
  flag n := by
    induction n with
    | zero => exact (flagBehind_zero w).trans h.interrupted
    | succ n ih =>
      have hquiet (s : Signal) := h.signals (w.clock + n) s (Nat.le_add_right _ _)
      rw [flagBehind_succ, ih, handled, hquiet, hquiet]
      rfl
  input := h.input

theorem fread_of_reliable (h : s.Reliable) (maxLen : ℕ) :
    (s.fread maxLen).1 = s.rest.take maxLen ∧ (s.fread maxLen).2.rest = s.rest.drop maxLen := by
  simp [InStream.fread, h.readFault]

theorem fgetc_of_reliable (h : s.Reliable) : s.fgetc.1 = s.rest.head? := by
  unfold InStream.fgetc
  rw [h.readFault]
  cases s.rest <;> rfl

theorem ungetc_of_reliable (h : s.Reliable) (c : UInt8) :
    (s.ungetc c).1 = true ∧ (s.ungetc c).2.rest = c :: s.rest := by
  simp [InStream.ungetc, h.ungetFault]

/-- Without faults only the length of the stream decides, and a long one is put back. -/
theorem ReadEnds.undisturbed (hu : Undisturbed w) {rc : SaltStatus} {n : ℕ} {input : InStream}
    (h : ReadEnds maxLen w rc n input) :
    (rc = .ok ∧ w.input.rest.length ≤ maxLen) ∨
      (rc = .errInput ∧ maxLen < w.input.rest.length ∧ input.Reliable ∧
        input.rest = w.input.rest.drop maxLen) := by
  have hread := fread_reliable maxLen hu.input
  have hprobe := fgetc_reliable hread
  obtain ⟨hbytes, hrest⟩ := fread_of_reliable hu.input maxLen
  have hfull (hlen : (w.input.fread maxLen).1.length = maxLen) : maxLen ≤ w.input.rest.length := by
    rw [hbytes, List.length_take] at hlen
    omega
  cases h with
  | interruptedBefore hflag => exact absurd hflag (ne_true_of_eq_false (hu.flag 1))
  | unallocated _ halloc => exact absurd halloc (hu.alloc _ (by omega))
  | interrupted _ hflag => exact absurd hflag (ne_true_of_eq_false (hu.flag 5))
  | unread _ _ herror => exact absurd herror (ne_true_of_eq_false hread.errorFlag)
  | short _ hlen =>
    rw [hbytes, List.length_take] at hlen
    exact .inl ⟨rfl, by omega⟩
  | unprobed _ _ _ herror => exact absurd herror (ne_true_of_eq_false hprobe.errorFlag)
  | full _ _ hnone herror =>
    have hnil := fgetc_none hnone herror
    rw [readStream, hrest, List.drop_eq_nil_iff] at hnil
    exact .inl ⟨rfl, hnil⟩
  | unrestored _ _ c _ hfail => exact absurd (ungetc_of_reliable hprobe c).1 (ne_true_of_eq_false hfail)
  | tooLong _ hlen c hsome _ =>
    have hcons := fgetc_some hsome
    rw [readStream, hrest] at hcons
    refine .inr ⟨rfl, ?_, ungetc_reliable c hprobe, ?_⟩
    · by_contra hle
      rw [List.drop_of_length_le (not_lt.1 hle)] at hcons
      exact absurd hcons (by simp)
    · rw [(ungetc_of_reliable hprobe c).2, hcons]

theorem readsWhole_iff (hu : Undisturbed w) (hmax : maxLen < sizeMax w.env.width) :
    ReadsWhole maxLen w ↔ w.input.rest.length ≤ maxLen := by
  obtain ⟨n, input, hend, -⟩ : Exits maxLen w (cliInputReadStreamLimited maxLen w).value _ :=
    cliInputReadStreamLimited_exits hmax
  rw [← hend.ok_iff]
  rcases hend.undisturbed hu with ⟨hok, hle⟩ | ⟨hrc, hlt, -⟩
  · exact iff_of_true hok hle
  · exact iff_of_false (by rw [hrc]; decide) (not_le.2 hlt)

end Reliable

/-- The reader takes the whole stream or nothing: it neither truncates nor reads too far, and a
failed read leaves no block behind. -/
theorem cliInputReadStreamLimited_bounded (maxLen : ℕ) (w : World)
    (hmax : maxLen < sizeMax w.env.width) :
    let r := cliInputReadStreamLimited maxLen w
    let s := w.input.rest
    (Undisturbed w → (r.value.1 = .ok ↔ s.length ≤ maxLen) ∧
      (maxLen < s.length → r.value.1 = .errInput ∧ r.final.input.rest = s.drop maxLen ∧
        r.final.input.fgetc.1 = s[maxLen]?)) ∧
    (r.value.1 = .ok → ∃ tail, r.value.2 = some (w.heap.length, s.length) ∧
      (s ++ 0 :: tail).length = maxLen + 1 ∧
      r.final.heap = w.heap ++ [⟨maxLen + 1, s ++ 0 :: tail, []⟩]) ∧
    (r.value.1 ≠ .ok → r.value.2 = none ∧
      (r.final.heap = w.heap ∨ ∃ b, b.Disposed ∧ r.final.heap = w.heap ++ [b])) := by
  intro r s
  obtain ⟨n, input, hend, hbehind⟩ : Exits maxLen w r.value r.final :=
    cliInputReadStreamLimited_exits hmax
  have hanswer : Answered w (view w) w.heap maxLen r.value r.final :=
    cliInputReadStreamLimited_answered (Tracks.refl w) (by omega)
  refine ⟨fun hu => ?_, fun hok => ?_, fun hne => ?_⟩
  · rcases hend.undisturbed hu with ⟨hok, hle⟩ | ⟨hrc, hlt, hinput, hrest⟩
    · exact ⟨⟨fun _ => hle, fun _ => hok⟩, fun hlt => absurd hle (not_le.2 hlt)⟩
    · refine ⟨⟨fun hok => ?_, fun hle => absurd hle (not_le.2 hlt)⟩, fun _ => ⟨hrc, ?_, ?_⟩⟩
      · rw [hok] at hrc
        exact SaltStatus.noConfusion hrc
      · rw [hbehind.input, hrest]
      · rw [hbehind.input, fgetc_of_reliable hinput, hrest, List.head?_drop]
  · rcases hanswer with ⟨tail, stream, hr, hlen, h⟩ | ⟨hrc, -⟩
    · refine ⟨tail, ?_, hlen, h.heap⟩
      rw [hr]
      rfl
    · exact absurd hok hrc
  · rcases hanswer with ⟨tail, stream, hr, -⟩ | ⟨-, hnone, -, message, heap, stream, -, hheap, h⟩
    · rw [hr] at hne
      exact absurd rfl hne
    · rw [h.heap]
      exact ⟨hnone, hheap⟩

theorem cliInputReadStreamLimited_bounded_two :
    let w := freshWorld (calmEnv SealingCorrect.referenceSodium) [65, 66] []
    (cliInputReadStreamLimited 1 w).value.1 = .errInput ∧
      (cliInputReadStreamLimited 1 w).final.input.fgetc.1 = some 66 := by
  intro w
  have hu : Undisturbed w := by
    refine ⟨fun t _ => by simp [w, freshWorld, calmEnv], fun n => ?_,
      ⟨rfl, fun _ => rfl, fun _ => rfl⟩⟩
    simp [flagBehind, handled, w, freshWorld, calmEnv]
  obtain ⟨hread, -⟩ := cliInputReadStreamLimited_bounded 1 w (by decide)
  obtain ⟨hrc, -, hnext⟩ := (hread hu).2 (by decide)
  exact ⟨hrc, hnext⟩

/-- If a read call was made and left the error indicator set, and the flag is set at the return,
then the status is that of an interruption. -/
def ReportsInterruption (maxLen : ℕ) (w : World) : Prop :=
  let r := cliInputReadStreamLimited maxLen w
  w.input.calls < r.final.input.calls → r.final.input.errorFlag = true →
    r.final.interrupted = true → r.value.1 = .errSignal

structure ProbeFails (maxLen : ℕ) (w : World) : Prop where
  errorFlag : (readStream maxLen w).errorFlag = false
  full : (w.input.fread maxLen).1.length = maxLen
  none : (readStream maxLen w).fgetc.1 = none
  error : (probedStream maxLen w).errorFlag = true

/-- A read fails, and a signal is handled behind the second poll: during the probe, or during the
release of the buffer. -/
structure SignalledLate (maxLen : ℕ) (w : World) : Prop where
  alloc : w.env.alloc (w.clock + 1) ≠ none
  polled : flagBehind w 5 = false
  signalled : ((readStream maxLen w).errorFlag = true ∧ flagBehind w (5 + releaseSteps w 5) = true) ∨
    (ProbeFails maxLen w ∧ flagBehind w (6 + releaseSteps w 6) = true)

section Late
variable {maxLen : ℕ} {w : World}

theorem fread_calls (maxLen : ℕ) (s : InStream) : (s.fread maxLen).2.calls = s.calls + 1 := rfl

theorem fgetc_calls (s : InStream) : s.fgetc.2.calls = s.calls + 1 := by
  unfold InStream.fgetc
  split <;> rfl

theorem fgetc_errorFlag {s : InStream} {c : UInt8} (h : s.fgetc.1 = some c) :
    s.fgetc.2.errorFlag = s.errorFlag := by
  unfold InStream.fgetc at h ⊢
  split at h <;> simp_all

theorem ungetc_errorFlag (s : InStream) (c : UInt8) : (s.ungetc c).2.errorFlag = s.errorFlag := by
  unfold InStream.ungetc
  split_ifs <;> rfl

theorem ReadEnds.failed {rc : SaltStatus} {n : ℕ} {input : InStream} (h : ReadEnds maxLen w rc n input)
    (hcalls : w.input.calls < input.calls) (herror : input.errorFlag = true)
    (hflag : flagBehind w n = true) : rc = .errSignal ∨ SignalledLate maxLen w := by
  -- a byte that was read leaves the indicator as it was
  have hkept {s : InStream} {c : UInt8} (hsome : s.fgetc.1 = some c) (hclear : s.errorFlag = false) :
      ¬ (s.fgetc.2.ungetc c).2.errorFlag = true := by
    rw [ungetc_errorFlag, fgetc_errorFlag hsome]
    exact ne_true_of_eq_false hclear
  cases h with
  | interruptedBefore _ => exact absurd hcalls (lt_irrefl _)
  | unallocated _ _ => exact absurd hcalls (lt_irrefl _)
  | interrupted _ _ => exact .inl rfl
  | unread ha hpolled _ => exact .inr ⟨ha.alloc, hpolled, .inl ⟨herror, hflag⟩⟩
  | short hd _ => exact absurd herror (ne_true_of_eq_false hd.errorFlag)
  | unprobed hd hlen hnone _ =>
    exact .inr ⟨hd.allocated.alloc, hd.flag, .inr ⟨⟨hd.errorFlag, hlen, hnone, herror⟩, hflag⟩⟩
  | full _ _ _ hclear => exact absurd herror (ne_true_of_eq_false hclear)
  | unrestored hd _ c hsome _ => exact absurd herror (hkept hsome hd.errorFlag)
  | tooLong hd _ c hsome _ => exact absurd herror (hkept hsome hd.errorFlag)

theorem ReadEnds.late {rc : SaltStatus} {n : ℕ} {input : InStream} (h : ReadEnds maxLen w rc n input)
    (hlate : SignalledLate maxLen w) :
    rc = .errIo ∧ w.input.calls < input.calls ∧ input.errorFlag = true ∧ flagBehind w n = true := by
  obtain ⟨halloc, hpolled, hsignalled⟩ := hlate
  have hfirst := flagBehind_mono (m := 1) (by omega) hpolled
  have hprobe (hclear : (readStream maxLen w).errorFlag = false) :
      ProbeFails maxLen w ∧ flagBehind w (6 + releaseSteps w 6) = true :=
    hsignalled.resolve_left fun hr => ne_true_of_eq_false hclear hr.1
  have hunread (hlen : (w.input.fread maxLen).1.length ≠ maxLen) : ¬ ProbeFails maxLen w :=
    fun hp => hlen hp.full
  cases h with
  | interruptedBefore hflag => exact absurd hflag (ne_true_of_eq_false hfirst)
  | unallocated _ hnone => exact absurd hnone halloc
  | interrupted _ hflag => exact absurd hflag (ne_true_of_eq_false hpolled)
  | unread _ _ herror =>
    refine ⟨rfl, Nat.lt_succ_self _, herror, (hsignalled.resolve_right fun hp => ?_).2⟩
    exact ne_true_of_eq_false hp.1.errorFlag herror
  | short hd hlen => exact (hunread hlen (hprobe hd.errorFlag).1).elim
  | unprobed hd _ _ herror =>
    refine ⟨rfl, ?_, herror, (hprobe hd.errorFlag).2⟩
    rw [probedStream, fgetc_calls, readStream, fread_calls]
    omega
  | full hd _ _ hclear => exact absurd (hprobe hd.errorFlag).1.error (ne_true_of_eq_false hclear)
  | unrestored hd _ c hsome _ =>
    rw [(hprobe hd.errorFlag).1.none] at hsome
    exact absurd hsome (by simp)
  | tooLong hd _ c hsome _ =>
    rw [(hprobe hd.errorFlag).1.none] at hsome
    exact absurd hsome (by simp)

end Late

/-- An interrupted read is reported as an interruption just when no signal comes behind the poll
that follows `fread`. -/
theorem cliInputReadStreamLimited_interruption_iff (maxLen : ℕ) (w : World)
    (hmax : maxLen < sizeMax w.env.width) :
    ReportsInterruption maxLen w ↔ ¬ SignalledLate maxLen w := by
  obtain ⟨n, input, hend, hbehind⟩ : Exits maxLen w (cliInputReadStreamLimited maxLen w).value
    (cliInputReadStreamLimited maxLen w).final := cliInputReadStreamLimited_exits hmax
  unfold ReportsInterruption
  dsimp only
  rw [hbehind.input, hbehind.interrupted]
  constructor
  · intro hreports hlate
    obtain ⟨hrc, hcalls, herror, hflag⟩ := hend.late hlate
    have hsignal := hreports hcalls herror hflag
    rw [hrc] at hsignal
    exact SaltStatus.noConfusion hsignal
  · intro hlate hcalls herror hflag
    exact (hend.failed hcalls herror hflag).resolve_right hlate

def interruptedWorld (arrival fault : ℕ) : World :=
  let w := freshWorld { calmEnv SealingCorrect.referenceSodium with
    signals := fun t s => t = arrival && s = .sigint } [65] []
  { w with
    sigint := .saltHandler
    input := { w.input with readFault := fun i => if fault ≤ i then some 0 else none } }

/-- A signal that interrupts `fread` is seen by the poll behind it. -/
theorem cliInputReadStreamLimited_interruption_fread :
    ReportsInterruption 1 (interruptedWorld 3 0) :=
  (cliInputReadStreamLimited_interruption_iff 1 (interruptedWorld 3 0) (by decide)).2
    fun hlate => absurd hlate.polled (by decide)

/-- A signal that interrupts the size probe is reported as a failed read. -/
theorem cliInputReadStreamLimited_probe_interrupted :
    (cliInputReadStreamLimited 1 (interruptedWorld 5 1)).value.1 = .errIo ∧
      ¬ ReportsInterruption 1 (interruptedWorld 5 1) := by
  have hrun : (cliInputReadStreamLimited 1 (interruptedWorld 5 1)).value.1 = .errIo ∧
      (interruptedWorld 5 1).input.calls <
        (cliInputReadStreamLimited 1 (interruptedWorld 5 1)).final.input.calls ∧
      (cliInputReadStreamLimited 1 (interruptedWorld 5 1)).final.input.errorFlag = true ∧
      (cliInputReadStreamLimited 1 (interruptedWorld 5 1)).final.interrupted = true := by
    decide +kernel
  obtain ⟨hrc, hcalls, herror, hflag⟩ := hrun
  refine ⟨hrc, fun hreports => ?_⟩
  have hsignal := hreports hcalls herror hflag
  rw [hrc] at hsignal
  exact SaltStatus.noConfusion hsignal

end Salt.BoundedReader
