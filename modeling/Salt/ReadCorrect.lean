import Salt.Ownership

set_option autoImplicit false

/-!
# The bounded reader

A read that succeeds holds the whole stream in a new block. One that fails
leaves a message and no live block, and without a fault only a stream that is
too long fails.
-/
namespace Salt.ReadCorrect
open ByteStrings BlockHeap TracedState Sealing StreamFacts Framing Tracking ReportingCorrect
  Ownership

section Read
variable {w₀ w : World} {v : View} {heap : Heap} {b : Block} {maxLen : ℕ}

theorem cliSecureReleaseBuffer_tracks (h : Tracks w₀ v w) {len : ℕ} (hheap : v.heap = heap ++ [b])
    (hlive : b.Live len) :
    Ends (cliSecureReleaseBuffer heap.length len) w fun _ w' =>
      ∃ b', b'.Disposed ∧ Tracks w₀ { v with heap := heap ++ [b'] } w' := by
  obtain ⟨hone, htwo⟩ := disposed_of_live hlive
  refine (sodiumMunlock_tracks h heap.length len).bind fun rc w₁ h₁ => ?_
  rw [hheap, modify_append] at h₁
  refine .ite (fun _ => ?_) fun _ => ?_
  · refine (sodiumMemzero_tracks h₁ heap.length len).bind fun _ w₂ h₂ => ?_
    rw [modify_append] at h₂
    refine (saltCliFreeImpl_tracks h₂ heap.length).mono fun _ w₃ h₃ => ⟨_, htwo, ?_⟩
    rw [modify_append] at h₃
    exact h₃
  · refine (saltCliFreeImpl_tracks h₁ heap.length).mono fun _ w₂ h₂ => ⟨_, hone, ?_⟩
    rw [modify_append] at h₂
    exact h₂

/-- The stream went into a new block; its terminator is behind the last byte. -/
def Filled (w₀ : World) (v : View) (heap : Heap) (maxLen : ℕ) (r : ReadResult) (w' : World) :
    Prop :=
  ∃ tail input, r = (.ok, some (heap.length, v.input.rest.length)) ∧
    (v.input.rest ++ 0 :: tail).length = maxLen + 1 ∧
    Tracks w₀ { v with
      heap := heap ++ [⟨maxLen + 1, v.input.rest ++ 0 :: tail, []⟩], input := input } w'

def Refused (w₀ : World) (v : View) (heap : Heap) (maxLen : ℕ) (r : ReadResult) (w' : World) :
    Prop :=
  r.1 ≠ .ok ∧ r.2 = none ∧ (FaultFree w₀ → maxLen < v.input.rest.length) ∧
    ∃ message heap' input, cstr message ≠ [] ∧
      (heap' = heap ∨ ∃ b, b.Disposed ∧ heap' = heap ++ [b]) ∧
      Tracks w₀ { v with
        heap := heap', input := input, state := withError v.state true message } w'

theorem failRead_refused {input : InStream} (h : Tracks w₀ { v with input := input } w)
    (hheap : v.heap = heap ++ [b]) (hlive : b.Live (maxLen + 1)) {message : Bytes}
    (hm : cstr message ≠ []) {rc : SaltStatus} (hrc : rc ≠ .ok)
    (hfault : FaultFree w₀ → maxLen < v.input.rest.length) :
    Ends (failRead heap.length maxLen message rc) w (Refused w₀ v heap maxLen) := by
  refine (saltCliSetError_tracks h true message rc).bind fun rc' w₁ ⟨hrc', h₁⟩ => ?_
  subst hrc'
  refine (cliSecureReleaseBuffer_tracks h₁ hheap hlive).bind fun _ w₂ ⟨b', hb', h₂⟩ => ?_
  exact .ret ⟨hrc, rfl, hfault, message, _, _, hm, .inr ⟨b', hb', rfl⟩, h₂⟩

theorem finishRead_filled {input : InStream} {bytes : Bytes}
    (h : Tracks w₀ { v with input := input, heap := heap ++ [⟨maxLen + 1, v.input.rest ++ bytes, []⟩] }
      w) (hlen : (v.input.rest ++ bytes).length = maxLen + 1) (hle : v.input.rest.length ≤ maxLen) :
    Ends (finishRead heap.length v.input.rest.length) w (Filled w₀ v heap maxLen) := by
  obtain ⟨c, tail, rfl⟩ : ∃ c tail, bytes = c :: tail := by
    cases bytes with
    | nil =>
      rw [List.append_nil] at hlen
      omega
    | cons c tail => exact ⟨c, tail, rfl⟩
  have hstore : store (v.input.rest ++ c :: tail) v.input.rest.length 0 =
      some (v.input.rest ++ 0 :: tail) := by
    have hlt : v.input.rest.length < (v.input.rest ++ c :: tail).length := by simp
    rw [store_of_lt hlt, set_append_right]
  exact (editBlock_last h rfl hstore).bind fun _ w₁ h₁ =>
    .ret ⟨tail, input, rfl, by simpa using hlen, h₁⟩

def Answered (w₀ : World) (v : View) (heap : Heap) (maxLen : ℕ) (r : ReadResult) (w' : World) :
    Prop :=
  Filled w₀ v heap maxLen r w' ∨ Refused w₀ v heap maxLen r w'

theorem live_of_length {bytes : Bytes} {n : ℕ} (h : bytes.length = n + 1) :
    Block.Live (n + 1) ⟨n + 1, bytes, []⟩ := ⟨rfl, h, Nat.succ_pos n, rfl⟩

theorem probeRead_answered {input : InStream} {tail : Bytes}
    (h : Tracks w₀ { v with
      input := input, heap := heap ++ [⟨maxLen + 1, v.input.rest.take maxLen ++ tail, []⟩] } w)
    (hlen : (v.input.rest.take maxLen ++ tail).length = maxLen + 1)
    (hrest : input.rest = v.input.rest.drop maxLen) (hge : maxLen ≤ v.input.rest.length)
    (hfree : FaultFree w₀ → input.Reliable) :
    Ends (probeRead heap.length maxLen) w (Answered w₀ v heap maxLen) := by
  have hlive := live_of_length hlen
  have hmore {c : UInt8} (hc : input.fgetc.1 = some c) : maxLen < v.input.rest.length := by
    have hcons := fgetc_some hc
    rw [hrest] at hcons
    by_contra hle
    rw [List.drop_of_length_le (by omega)] at hcons
    exact absurd hcons (by simp)
  refine (saltCliFgetcImpl_tracks h).bind fun nextChar w₁ ⟨hchar, h₁⟩ => ?_
  cases nextChar with
  | none =>
    refine (saltCliFerrorImpl_tracks h₁).bind fun failed w₂ ⟨hfailed, h₂⟩ => .ite (fun hf => ?_)
      fun hf => ?_
    · -- a reliable stream has no error to report here
      refine (failRead_refused (v := { v with heap := _ }) h₂ rfl hlive (by decide) (by decide)
        fun h₀ => ?_).mono fun _ _ hr => .inr hr
      have hclear := (fgetc_reliable (hfree h₀)).errorFlag
      rw [hfailed, hclear] at hf
      exact Bool.noConfusion hf
    · rw [hfailed, Bool.not_eq_true] at hf
      have hnil := fgetc_none hchar.symm hf
      rw [hrest, List.drop_eq_nil_iff] at hnil
      obtain rfl : v.input.rest.length = maxLen := by omega
      rw [List.take_length] at h₂ hlen
      exact (finishRead_filled h₂ hlen (le_refl _)).mono fun _ _ hr => .inl hr
  | some c =>
    refine (saltCliUngetcImpl_tracks h₁ c).bind fun restored w₂ ⟨_, h₂⟩ => .ite (fun _ => ?_)
      fun _ => ?_
    · exact (failRead_refused (v := { v with heap := _ }) h₂ rfl hlive (by decide) (by decide)
        fun _ => hmore hchar.symm).mono fun _ _ hr => .inr hr
    · exact (failRead_refused (v := { v with heap := _ }) h₂ rfl hlive (by decide) (by decide)
        fun _ => hmore hchar.symm).mono fun _ _ hr => .inr hr

theorem fillBuffer_answered {content : ℕ → UInt8}
    (h : Tracks w₀ { v with
      heap := heap ++ [⟨maxLen + 1, fresh content (maxLen + 1), []⟩] } w) :
    Ends (fillBuffer heap.length maxLen) w (Answered w₀ v heap maxLen) := by
  obtain ⟨n, hn, hread, hrest, hall⟩ := fread_bytes maxLen v.input
  refine (sodiumMlock_tracks h _).bind fun _ w₁ h₁ => ?_
  refine (saltCliFreadImpl_tracks h₁ heap.length maxLen).bind fun bytesRead w₂ hfread => ?_
  obtain ⟨hbytes, h₂⟩ := hfread
  rw [modify_append, bytesAt_append] at h₂
  obtain ⟨bytes, hput⟩ : ∃ bytes, put (fresh content (maxLen + 1)) (v.input.fread maxLen).1 =
      v.input.rest.take n ++ bytes := by
    rw [hread, put, overwrite, List.take_of_length_le]
    · exact ⟨_, rfl⟩
    · rw [List.length_take, fresh_length]
      omega
  have hlen : (v.input.rest.take n ++ bytes).length = maxLen + 1 := by
    rw [← hput, put_length, fresh_length]
  have hlive := live_of_length hlen
  change Tracks w₀ { v with
    input := (v.input.fread maxLen).2, heap := heap ++ [⟨maxLen + 1, put _ _, []⟩] } w₂ at h₂
  rw [hput] at h₂
  have hfree : FaultFree w₀ → (v.input.fread maxLen).2.Reliable := fun h₀ => by
    have hr := (h₂.faultFree h₀).input
    rw [h₂.input] at hr
    exact hr
  refine (saltCliCheckInterrupted_tracks h₂).bind fun rc w₃ hrc => ?_
  rcases hrc with ⟨rfl, h₃⟩ | ⟨rfl, hfault, h₃⟩
  · refine (saltCliFerrorImpl_tracks h₃).bind fun failed w₄ hferror => ?_
    obtain ⟨hfailed, h₄⟩ := hferror
    refine .ite (fun hf => ?_) fun hf => ?_
    · refine (failRead_refused (v := { v with heap := _ }) h₄ rfl hlive (by decide) (by decide)
        fun h₀ => ?_).mono fun _ _ hr => .inr hr
      rw [hfailed, (hfree h₀).errorFlag] at hf
      exact Bool.noConfusion hf
    · rw [hfailed, Bool.not_eq_true] at hf
      obtain rfl := hall hf
      rw [hread, List.length_take] at hbytes
      refine .ite (fun hfull => ?_) fun hshort => ?_
      · exact probeRead_answered h₄ hlen hrest (by omega) hfree
      · rw [List.take_of_length_le (by omega)] at h₄ hlen
        have hcount : bytesRead = v.input.rest.length := by omega
        rw [hcount]
        exact (finishRead_filled h₄ hlen (by omega)).mono fun _ _ hr => .inl hr
  · refine (cliSecureReleaseBuffer_tracks h₃ rfl hlive).bind fun _ w₄ hreleased => .ret ?_
    obtain ⟨b', hb', h₄⟩ := hreleased
    exact .inr ⟨by decide, rfl, fun h₀ => absurd h₀ hfault, _, _, _, by decide,
      .inr ⟨b', hb', rfl⟩, h₄⟩

/-- The bounded reader, on every stream and under every fault. -/
theorem cliInputReadStreamLimited_answered (h : Tracks w₀ v w)
    (hmax : maxLen ≤ sizeMax w₀.env.width - 1) :
    Ends (cliInputReadStreamLimited maxLen) w (Answered w₀ v v.heap maxLen) := by
  refine Ends.bind_read (a := w₀.env.width) (by rw [← h.env]) ?_
  refine .ite (fun hlt => absurd hlt (by omega)) fun _ => ?_
  refine (saltCliCheckInterrupted_tracks h).bind fun rc w₁ hrc => ?_
  rcases hrc with ⟨rfl, h₁⟩ | ⟨rfl, hfault, h₁⟩
  · refine (saltCliAllocImpl_tracks h₁ (maxLen + 1)).bind fun buffer w₂ hbuffer => ?_
    rcases hbuffer with ⟨rfl, hnone, h₂⟩ | ⟨content, rfl, -, h₂⟩
    · refine (saltCliSetError_tracks h₂ true _ _).bind fun rc w₃ ⟨hrc, h₃⟩ => .ret ?_
      subst hrc
      exact .inr ⟨by decide, rfl, fun h₀ => absurd h₀ (h₁.no_fault hnone), _, _, _, by decide, .inl rfl,
        h₃⟩
    · exact fillBuffer_answered h₂
  · exact .ret (.inr ⟨by decide, rfl, fun h₀ => absurd h₀ hfault, _, _, _, by decide, .inl rfl, h₁⟩)

theorem refused_reported {heap : Heap} {input : InStream} {message : Bytes} {rc : SaltStatus}
    (h : Tracks w₀ { v with
      heap := heap, input := input, state := withError v.state true message } w)
    (ht : Tidy v.state v.heap) (hrc : rc ≠ .ok) (hm : cstr message ≠ [])
    (hheap : heap = v.heap ∨ ∃ b, b.Disposed ∧ heap = v.heap ++ [b]) :
    Ends (saltCliReportStateError rc) w (Failed v.err v.undefined v.positionals) := by
  have ht' : Tidy (withError v.state true message) heap := by
    rcases hheap with rfl | ⟨b, hb, rfl⟩
    · exact ht.message message
    · exact (ht.message message).append_disposed hb
  exact saltCliReportStateError_failed h hrc (cstr_withError ht.error hm) ht'

end Read

end Salt.ReadCorrect
