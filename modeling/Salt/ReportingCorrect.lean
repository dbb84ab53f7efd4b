import Salt.Tracking

set_option autoImplicit false

/-!
# Diagnostics

A report that the error stream accepts is one record there and changes nothing
else. When the stream refuses it, only the status and the error buffer change.
-/
namespace Salt.ReportingCorrect
open ByteStrings TracedState StreamFacts Framing Tracking

/-- `error: ` or `internal error: `, a message and a newline. -/
def IsDiagnostic (text : Bytes) : Prop := ∃ message, message ≠ [] ∧
  (text = ascii "error: " ++ message ++ ascii "\n" ∨
    text = ascii "internal error: " ++ message ++ ascii "\n")

def Diagnosed (s s' : OutStream) : Prop := ∃ text, IsDiagnostic text ∧ Received s [text] s'

def noted (v : View) (error : Bytes) (err : OutStream) : View :=
  { v with state := { v.state with error := error }, err := err }

/-- A text was sent to the error stream; the error buffer records a refusal. -/
structure Sent (w₀ : World) (v : View) (text : Bytes) (done : Prop) (w' : World)
    (error : Bytes) (err : OutStream) : Prop where
  tracks : Tracks w₀ (noted v error err) w'
  length : error.length = v.state.error.length
  accepted : v.err.Accepts → done ∧ error = v.state.error ∧ Received v.err [text] err

section Reports
variable {w₀ w : World} {v : View}

theorem vfprintf_err_tracks (h : Tracks w₀ v w) (data : Bytes) :
    Ends (vfprintf .err data) w fun ok w' =>
      ok = (v.err.write data).1 ∧ Tracks w₀ { v with err := (v.err.write data).2 } w' := by
  refine ⟨by rw [← h.err]; rfl, h.after (vfprintf_err_internal data) ?_⟩
  rw [← h.view]
  rfl

theorem fflush_err_tracks (h : Tracks w₀ v w) :
    Ends (fflush .err) w fun ok w' =>
      ok = v.err.flush.1 ∧ Tracks w₀ { v with err := v.err.flush.2 } w' := by
  refine ⟨by rw [← h.err]; rfl, h.after fflush_err_internal ?_⟩
  rw [← h.view]
  rfl

theorem sent_refused (hrefused : ¬ v.err.Accepts) {text : Bytes} {done : Prop} {s : OutStream}
    {useError : Bool} {message : Bytes} {w' : World}
    (h' : Tracks w₀ { v with err := s, state := withError v.state useError message } w') :
    ∃ error err, Sent w₀ v text done w' error err :=
  ⟨_, _, h', withError_error_length _ _ _, fun ha => absurd ha hrefused⟩

theorem saltCliFlushStream_tracks (h : Tracks w₀ v w) (useError : Bool) (message : Bytes) :
    Ends (saltCliFlushStream .err useError message) w fun a w' =>
      (v.err.flush.1 = true ∧ a = .ok ∧ Tracks w₀ { v with err := v.err.flush.2 } w') ∨
      (v.err.flush.1 = false ∧ a = .errIo ∧ Tracks w₀ { v with
        err := v.err.flush.2, state := withError v.state useError message } w') := by
  refine (fflush_err_tracks h).bind fun ok w₁ ⟨hok, h₁⟩ => .ite (fun hf => ?_) fun hf => ?_
  · rw [hok, Bool.not_eq_true'] at hf
    exact (saltCliSetError_tracks h₁ _ _ _).mono fun a w₂ ⟨ha, h₂⟩ => .inr ⟨hf, ha, h₂⟩
  · rw [hok, Bool.not_eq_true', Bool.not_eq_false] at hf
    exact .ret (.inl ⟨hf, rfl, h₁⟩)

theorem saltCliWriteStream_sent (h : Tracks w₀ v w) (useError : Bool) (message text : Bytes) :
    Ends (saltCliWriteStream .err useError message text) w fun a w' =>
      (a = .ok ∨ a = .errIo) ∧ ∃ error err, Sent w₀ v text (a = .ok) w' error err := by
  refine (vfprintf_err_tracks h text).bind fun ok w₁ ⟨hok, h₁⟩ => .ite (fun hw => ?_) fun hw => ?_
  · refine (saltCliSetError_tracks h₁ _ _ _).mono fun a w₂ ⟨ha, h₂⟩ => ⟨.inr ha, ?_⟩
    refine sent_refused (fun hacc => ?_) h₂
    rw [hok, write_of_accepts text hacc] at hw
    exact Bool.noConfusion hw
  rw [hok, Bool.not_eq_true', Bool.not_eq_false] at hw
  refine (saltCliFlushStream_tracks h₁ useError message).mono fun a w₂ hflushed => ?_
  rcases hflushed with ⟨hf, rfl, h₂⟩ | ⟨hf, rfl, h₂⟩
  · exact ⟨.inl rfl, _, _, h₂, rfl, fun _ => ⟨rfl, rfl, received_of_write hw hf⟩⟩
  · refine ⟨.inr rfl, sent_refused (fun hacc => ?_) h₂⟩
    rw [flush_of_accepts (write_accepts text hacc)] at hf
    exact Bool.noConfusion hf

theorem saltCliReportStreamStatus_sent (h : Tracks w₀ v w) (useError : Bool) (rc : SaltStatus)
    (text : Bytes) :
    Ends (saltCliReportStreamStatus .err useError rc text) w fun a w' =>
      (a = rc ∨ a = .errIo) ∧ ∃ error err, Sent w₀ v text (a = rc) w' error err := by
  refine (vfprintf_err_tracks h text).bind fun ok w₁ ⟨hok, h₁⟩ => .ite (fun hw => ?_) fun hw => ?_
  · refine (saltCliSetError_tracks h₁ _ _ _).mono fun a w₂ ⟨ha, h₂⟩ => ⟨.inr ha, ?_⟩
    refine sent_refused (fun hacc => ?_) h₂
    rw [hok, write_of_accepts text hacc] at hw
    exact Bool.noConfusion hw
  rw [hok, Bool.not_eq_true', Bool.not_eq_false] at hw
  refine (saltCliFlushStream_tracks h₁ useError _).bind fun flushed w₂ hflushed => ?_
  rcases hflushed with ⟨hf, rfl, h₂⟩ | ⟨hf, rfl, h₂⟩
  · exact .ret ⟨.inl rfl, _, _, h₂, rfl, fun _ => ⟨rfl, rfl, received_of_write hw hf⟩⟩
  · refine .ret ⟨.inr rfl, sent_refused (fun hacc => ?_) h₂⟩
    rw [flush_of_accepts (write_accepts text hacc)] at hf
    exact Bool.noConfusion hf

theorem saltCliReportStateError_sent (h : Tracks w₀ v w) (rc : SaltStatus) :
    Ends (saltCliReportStateError rc) w fun a w' =>
      (a = rc ∨ a = .errIo) ∧
        ∃ error err, Sent w₀ v (stateErrorText v.state) (a = rc) w' error err := by
  refine (getState_tracks h).bind fun s w₁ ⟨hs, h₁⟩ => ?_
  subst hs
  exact saltCliReportStreamStatus_sent h₁ false rc _

theorem saltCliReportStreamStatus_ne_ok (w : World) (useError : Bool) {rc : SaltStatus}
    (hrc : rc ≠ .ok) (text : Bytes) :
    Ends (saltCliReportStreamStatus .err useError rc text) w fun a _ => a ≠ .ok := by
  refine (saltCliReportStreamStatus_sent (Tracks.refl w) useError rc text).mono
    fun a _ ⟨ha, _⟩ => ?_
  rcases ha with rfl | rfl
  · exact hrc
  · decide

theorem saltCliReportStateError_ne_ok (w : World) {rc : SaltStatus} (hrc : rc ≠ .ok) :
    Ends (saltCliReportStateError rc) w fun a _ => a ≠ .ok :=
  saltCliReportStreamStatus_ne_ok w false hrc _

end Reports

theorem isDiagnostic_of_error {s : CliState} (h : cstr s.error ≠ []) :
    IsDiagnostic (stateErrorText s) := ⟨_, h, .inl rfl⟩

/-- A message set in an error buffer of the size the state has. -/
theorem cstr_withError {s : CliState} (hsize : s.error.length = errorSize) {message : Bytes}
    (hm : cstr message ≠ []) : cstr (withError s true message).error ≠ [] := by
  obtain ⟨buffer, hbuffer, -, -, hne⟩ := setErrorBuffer_reported (some s.error) hm s.error rfl
    (by rw [hsize]; decide)
  obtain rfl : vsnprintf s.error message = buffer := Option.some.inj hbuffer
  exact hne

end Salt.ReportingCorrect
