import Salt.JsonEmission
import Salt.ReportingCorrect
import Salt.SealingCorrect
import Salt.Utf8Validation

set_option autoImplicit false

/-!
# What reaches the output stream

A writer puts its text on the output stream, or a beginning of it and then
fails with `SALT_ERR_IO`. The rest of the state stays as it was, except that a
failure leaves a message in the error buffer.
-/
namespace Salt.EmissionCorrect
open ByteStrings TracedState StreamFacts Framing Tracking ReportingCorrect JsonEmission

structure Minded (w₀ : World) (v : View) (rc : SaltStatus) (w' : World) (error : Bytes) :
    Prop where
  tracks : Tracks w₀ (noted v error v.err) w'
  length : error.length = v.state.error.length
  kept : rc = .ok → error = v.state.error
  message : rc ≠ .ok → v.state.error.length = errorSize → cstr error ≠ []

/-- The text was written to the stream `s`, or a beginning of it before a failure. -/
structure Emitted (w₀ : World) (v : View) (s : OutStream) (text : Bytes) (rc : SaltStatus)
    (w' : World) : Prop where
  minded : ∃ error, Minded w₀ v rc w' error
  status : rc = .ok ∨ rc = .errIo
  taken : ∃ n, accepted w'.out = accepted s ++ text.take n ∧ (rc = .ok → text.take n = text)
  script : w'.out.script = s.script
  errorFlag : rc = .ok → w'.out.errorFlag = s.errorFlag
  accepts : s.Accepts → rc = .ok

structure Delivered (w₀ : World) (v : View) (s : OutStream) (text : Bytes) (rc : SaltStatus)
    (w' : World) : Prop where
  minded : ∃ error, Minded w₀ v rc w' error
  status : rc = .ok ∨ rc = .errIo
  taken : ∃ n, accepted w'.out = accepted s ++ text.take n
  whole : rc = .ok → w'.out.delivered = accepted s ++ text ∧ w'.out.pending = []
  accepts : s.Accepts → s.errorFlag = false → rc = .ok

def Writes (m : Cli SaltStatus) (text : Bytes) : Prop :=
  ∀ w₀ v w, Tracks w₀ v w → Ends m w (Emitted w₀ v w.out text)

section Streams
variable {w₀ w : World} {v : View}

theorem vfprintf_out_tracks (h : Tracks w₀ v w) (data : Bytes) :
    Ends (vfprintf .out data) w fun ok w' =>
      ok = (w.out.write data).1 ∧ w'.out = (w.out.write data).2 ∧ Tracks w₀ v w' :=
  ⟨rfl, rfl, h.advance (advances_atomic (fun _ => rfl)
    (fun _ => advances_of_eq rfl rfl rfl) w) h.view⟩

theorem fflush_out_tracks (h : Tracks w₀ v w) :
    Ends (fflush .out) w fun ok w' =>
      ok = w.out.flush.1 ∧ w'.out = w.out.flush.2 ∧ Tracks w₀ v w' :=
  ⟨rfl, rfl, h.advance (advances_atomic (fun _ => rfl)
    (fun _ => advances_of_eq rfl rfl rfl) w) h.view⟩

theorem Minded.refl (h : Tracks w₀ v w) : Minded w₀ v .ok w v.state.error :=
  ⟨h, rfl, fun _ => rfl, fun hne => absurd rfl hne⟩

theorem minded_error {rc : SaltStatus} {message : Bytes} (hm : cstr message ≠ [])
    (h : Tracks w₀ { v with state := withError v.state true message } w) (hrc : rc ≠ .ok) :
    ∃ error, Minded w₀ v rc w error :=
  ⟨_, h, withError_error_length _ true _, fun hok => absurd hok hrc,
    fun _ hsize => cstr_withError hsize hm⟩

theorem Minded.trans {rc : SaltStatus} {w' : World} {error : Bytes}
    (h : Minded w₀ v .ok w error) {error' : Bytes}
    (h' : Minded w₀ (noted v error v.err) rc w' error') : Minded w₀ v rc w' error' := by
  have herror := h.kept rfl
  subst herror
  exact h'

theorem cliStreamWriteError_tracks (h : Tracks w₀ v w) (message : Bytes) :
    Ends (cliStreamWriteError message) w fun rc w' => rc = .errIo ∧ w'.out = w.out ∧
      Tracks w₀ { v with state := withError v.state true message } w' :=
  ⟨rfl, rfl, modifyState_tracks h fun s => { s with error := vsnprintf s.error message }⟩

theorem cliStreamWrite_writes (data : Bytes) : Writes (cliStreamWrite data) data := by
  intro w₀ v w h
  obtain ⟨n, htaken, hwhole⟩ := write_accepted data w.out
  refine (vfprintf_out_tracks h data).bind fun ok w₁ ⟨hok, hout, h₁⟩ =>
    .ite (fun hw => ?_) fun hw => ?_
  · rw [hok, Bool.not_eq_true'] at hw
    refine (cliStreamWriteError_tracks h₁ _).mono fun rc w₂ ⟨hrc, hout₂, h₂⟩ => ?_
    subst hrc
    rw [hout] at hout₂
    refine ⟨minded_error (by decide) h₂ (by decide), .inr rfl, ⟨n, by rw [hout₂, htaken], by simp⟩,
      by rw [hout₂, write_script], by simp, fun ha => ?_⟩
    rw [write_of_accepts data ha] at hw
    exact Bool.noConfusion hw
  · rw [hok, Bool.not_eq_true', Bool.not_eq_false] at hw
    exact .ret ⟨⟨_, Minded.refl h₁⟩, .inl rfl, ⟨n, by rw [hout, htaken], fun _ => hwhole hw⟩,
      by rw [hout, write_script], fun _ => by rw [hout, (write_ok hw).1], fun _ => rfl⟩

end Streams

section Sequences
variable {w₀ w : World} {v : View} {m n : Cli SaltStatus} {text text' : Bytes}

theorem Emitted.stopped {s : OutStream} {rc : SaltStatus} {w' : World}
    (h : Emitted w₀ v s text rc w') (hrc : rc ≠ .ok) (text' : Bytes) :
    Emitted w₀ v s (text ++ text') .errIo w' := by
  obtain rfl : rc = .errIo := h.status.resolve_left hrc
  obtain ⟨k, htaken, -⟩ := h.taken
  refine ⟨h.minded, .inr rfl, ⟨min k text.length, ?_, by simp⟩, h.script, by simp,
    fun ha => absurd (h.accepts ha) hrc⟩
  rw [htaken, List.take_append_of_le_length (Nat.min_le_right _ _), ← List.take_take,
    List.take_length]

theorem Emitted.trans {s : OutStream} {rc : SaltStatus} {w' w'' : World}
    (h : Emitted w₀ v s text .ok w') {error : Bytes} (hm : Minded w₀ v .ok w' error)
    (h' : Emitted w₀ (noted v error v.err) w'.out text' rc w'') :
    Emitted w₀ v s (text ++ text') rc w'' := by
  obtain ⟨k, htaken, hall⟩ := h.taken
  obtain ⟨l, htaken', hall'⟩ := h'.taken
  refine ⟨h'.minded.imp fun _ => hm.trans, h'.status, ⟨text.length + l, ?_, fun hok => ?_⟩,
    h'.script.trans h.script, fun hok => (h'.errorFlag hok).trans (h.errorFlag rfl),
    fun ha => h'.accepts ?_⟩
  · rw [htaken', htaken, hall rfl, List.append_assoc, List.take_length_add_append]
  · rw [List.take_length_add_append, hall' hok]
  · unfold OutStream.Accepts
    rw [h.script]
    exact ha

theorem Writes.andThen (hm : Writes m text) (hn : Writes n text') :
    Writes (do
      let rc ← m
      if rc ≠ .ok then return .errIo else n) (text ++ text') := by
  intro w₀ v w h
  refine (hm _ _ _ h).bind fun rc w₁ h₁ => .ite (fun hrc => .ret (h₁.stopped hrc text')) fun hrc => ?_
  obtain rfl : rc = .ok := not_not.1 hrc
  obtain ⟨error, hminded⟩ := h₁.minded
  exact (hn _ _ _ hminded.tracks).mono fun rc w₂ h₂ => h₁.trans hminded h₂

theorem writes_nothing : Writes (return .ok) [] := fun _ _ w h =>
  .ret ⟨⟨_, Minded.refl h⟩, .inl rfl, ⟨0, (List.append_nil (accepted w.out)).symm, fun _ => rfl⟩,
    rfl, fun _ => rfl, fun _ => rfl⟩

theorem writeAll_writes {ms : List (Cli SaltStatus)} {texts : List Bytes}
    (h : List.Forall₂ Writes ms texts) : Writes (writeAll ms) texts.flatten := by
  induction h with
  | nil => exact writes_nothing
  | cons hm _ ih => exact hm.andThen ih

end Sequences

theorem writeJsonByte_writes (c : UInt8) : Writes (writeJsonByte c) (jsonEscape c) := by
  unfold writeJsonByte jsonEscape
  split_ifs
  · exact (cliStreamWrite_writes [92]).andThen (cliStreamWrite_writes [c])
  all_goals exact cliStreamWrite_writes _

theorem writeJsonBytes_writes (s : Bytes) :
    Writes (writeJsonBytes s) (s.flatMap jsonEscape ++ [34]) := by
  induction s with
  | nil => exact cliStreamWrite_writes [34]
  | cons c s ih =>
    rw [List.flatMap_cons, List.append_assoc]
    exact (writeJsonByte_writes c).andThen ih

theorem writeJsonString_writes (value : CString) :
    Writes (writeJsonString value) (jsonString value.bytes) :=
  (cliStreamWrite_writes [34]).andThen (writeJsonBytes_writes value.bytes)

theorem jsonRecord_writes (value keyId : CString) :
    Writes (writeAll [cliStreamPutc 123, cliStreamPuts (ascii "\"encrypted_value\":"),
      writeJsonString value, cliStreamPuts (ascii ",\"key_id\":"), writeJsonString keyId,
      cliStreamPuts [125, 10]]) (jsonRecord value.bytes keyId.bytes ++ [10]) := by
  have h := writeAll_writes (.cons (cliStreamWrite_writes [123])
    (.cons (cliStreamWrite_writes (ascii "\"encrypted_value\":"))
      (.cons (writeJsonString_writes value) (.cons (cliStreamWrite_writes (ascii ",\"key_id\":"))
        (.cons (writeJsonString_writes keyId) (.cons (cliStreamWrite_writes [125, 10]) .nil))))))
  simpa [jsonRecord, cliStreamPutc, cliStreamPuts] using h

section Flushing
variable {w₀ w : World} {v : View} {text : Bytes}

/-- The flush of a stream that took the whole text. -/
theorem cliStreamFlush_delivered {w₁ : World} (h : Emitted w₀ v w.out text .ok w₁) :
    Ends cliStreamFlush w₁ (Delivered w₀ v w.out text) := by
  obtain ⟨n, htaken, hall⟩ := h.taken
  rw [hall rfl] at htaken
  obtain ⟨error, hm⟩ := h.minded
  refine (fflush_out_tracks hm.tracks).bind fun ok w₂ ⟨hok, hout, h₂⟩ => ?_
  refine Ends.bind_read (a := w₂.out.errorFlag) rfl (.ite (fun hbad => ?_) fun hgood => ?_)
  · refine (cliStreamWriteError_tracks h₂ _).mono fun rc w₃ ⟨hrc, hout₃, h₃⟩ => ?_
    subst hrc
    refine ⟨(minded_error (by decide) h₃ (by decide)).imp fun _ => hm.trans, .inr rfl,
      ⟨text.length, ?_⟩, by simp, fun ha he => ?_⟩
    · rw [hout₃, hout, flush_accepted, htaken, List.take_length]
    · have hflush : w₁.out.flush.1 = true := flush_of_accepts (by
        unfold OutStream.Accepts
        rw [h.script]
        exact ha)
      rw [hok, hflush, hout, flush_ok hflush, h.errorFlag rfl, he] at hbad
      exact Bool.noConfusion hbad
  · simp only [Bool.or_eq_true, Bool.not_eq_true', not_or, Bool.not_eq_true, Bool.not_eq_false,
      hok] at hgood
    refine .ret ⟨⟨_, hm.trans (Minded.refl h₂)⟩, .inl rfl, ⟨text.length, ?_⟩, fun _ => ?_,
      fun _ _ => rfl⟩
    · rw [hout, flush_accepted, htaken, List.take_length]
    · rw [hout, flush_ok hgood.1]
      exact ⟨htaken, rfl⟩

theorem Writes.delivered {m : Cli SaltStatus} (hm : Writes m text) (h : Tracks w₀ v w) :
    Ends (do
      let rc ← m
      if rc ≠ .ok then return .errIo else cliStreamFlush) w (Delivered w₀ v w.out text) := by
  refine (hm _ _ _ h).bind fun rc w₁ h₁ => .ite (fun hrc => ?_) fun hrc => ?_
  · have h₂ := h₁.stopped hrc []
    rw [List.append_nil] at h₂
    exact .ret ⟨h₂.minded, h₂.status, h₂.taken.imp fun _ ht => ht.1, by simp,
      fun ha _ => h₂.accepts ha⟩
  · obtain rfl : rc = .ok := not_not.1 hrc
    exact cliStreamFlush_delivered h₁

/-- Help and version go out in one write. -/
theorem saltCliWriteStream_delivered (h : Tracks w₀ v w) {message : Bytes}
    (hmessage : cstr message ≠ []) (text : Bytes) :
    Ends (saltCliWriteStream .out true message text) w (Delivered w₀ v w.out text) := by
  obtain ⟨n, htaken, hwhole⟩ := write_accepted text w.out
  refine (vfprintf_out_tracks h text).bind fun ok w₁ ⟨hok, hout, h₁⟩ =>
    .ite (fun hw => ?_) fun hw => ?_
  · rw [hok, Bool.not_eq_true'] at hw
    refine Ends.mono (R := fun rc w₂ => rc = .errIo ∧ w₂.out = w₁.out ∧
      Tracks w₀ { v with state := withError v.state true message } w₂)
      ⟨rfl, rfl, (saltCliSetError_tracks h₁ true message .errIo).2⟩ ?_
    rintro rc w₂ ⟨rfl, hout₂, h₂⟩
    refine ⟨minded_error hmessage h₂ (by decide), .inr rfl, ⟨n, by rw [hout₂, hout, htaken]⟩,
      by simp, fun ha _ => ?_⟩
    rw [write_of_accepts text ha] at hw
    exact Bool.noConfusion hw
  rw [hok, Bool.not_eq_true', Bool.not_eq_false] at hw
  rw [hwhole hw] at htaken
  refine (fflush_out_tracks h₁).bind fun flushed w₂ ⟨hflushed, hout₂, h₂⟩ =>
    .ite (fun hf => ?_) fun hf => ?_
  · rw [hflushed, Bool.not_eq_true'] at hf
    refine Ends.mono (R := fun rc w₃ => rc = .errIo ∧ w₃.out = w₂.out ∧
      Tracks w₀ { v with state := withError v.state true message } w₃)
      ⟨rfl, rfl, (saltCliSetError_tracks h₂ true message .errIo).2⟩ ?_
    rintro rc w₃ ⟨rfl, hout₃, h₃⟩
    refine ⟨minded_error hmessage h₃ (by decide), .inr rfl, ⟨text.length, ?_⟩, by simp,
      fun ha _ => ?_⟩
    · rw [hout₃, hout₂, flush_accepted, hout, htaken, List.take_length]
    · rw [hout, flush_of_accepts (write_accepts text ha)] at hf
      exact Bool.noConfusion hf
  · rw [hflushed, Bool.not_eq_true', Bool.not_eq_false] at hf
    refine .ret ⟨⟨_, Minded.refl h₂⟩, .inl rfl, ⟨text.length, ?_⟩, fun _ => ?_, fun _ _ => rfl⟩
    · rw [hout₂, flush_accepted, hout, htaken, List.take_length]
    · rw [hout₂, flush_ok hf, hout]
      exact ⟨htaken, rfl⟩

end Flushing

def JsonKeyId (keyId : Option CString) (id : CString) : Prop :=
  keyId = some id ∧ id.bytes ≠ [] ∧ Utf8Text.WellFormed id.bytes

inductive EmitsText (value : CString) (keyId : Option CString) : OutputMode → Bytes → Prop where
  | text : EmitsText value keyId .text (value.bytes ++ [10])
  | json {id : CString} (h : JsonKeyId keyId id) :
      EmitsText value keyId .json (jsonRecord value.bytes id.bytes ++ [10])

theorem emitsText_json {value : CString} {keyId : Option CString} {text : Bytes}
    (h : EmitsText value keyId .json text) :
    ∃ id, JsonKeyId keyId id ∧ text = jsonRecord value.bytes id.bytes ++ [10] := by
  cases h with
  | json hid => exact ⟨_, hid, rfl⟩

theorem jsonKeyId_some {id id' : CString} (h : JsonKeyId (some id) id') :
    id.bytes ≠ [] ∧ Utf8Text.WellFormed id.bytes := by
  obtain ⟨hid, h⟩ := h
  rwa [Option.some.inj hid]

/-- Nothing was written and the error buffer says why. -/
structure Withheld (w₀ : World) (v : View) (s : OutStream) (rc : SaltStatus) (w' : World) :
    Prop where
  status : rc = .errInput
  out : w'.out = s
  minded : ∃ error, Minded w₀ v rc w' error

section Emit
variable {w₀ w : World} {v : View}

theorem emitError_withheld (h : Tracks w₀ v w) {message : Bytes} (hm : cstr message ≠ []) :
    Ends (emitError message) w (Withheld w₀ v w.out) :=
  ⟨rfl, rfl, minded_error hm
    (modifyState_tracks h fun s => { s with error := vsnprintf s.error message })
    (by rintro ⟨⟩)⟩

theorem saltCliEmitOutput_spec (h : Tracks w₀ v w) (mode : OutputMode) (value : CString)
    (keyId : Option CString) :
    Ends (saltCliEmitOutput mode value keyId) w fun rc w' =>
      (∃ text, EmitsText value keyId mode text ∧ Delivered w₀ v w.out text rc w') ∨
      ((∀ text, ¬ EmitsText value keyId mode text) ∧ Withheld w₀ v w.out rc w') := by
  cases mode with
  | text =>
    exact ((cliStreamWrite_writes (value.bytes ++ [10])).delivered h).mono
      fun _ _ hd => .inl ⟨_, .text, hd⟩
  | json =>
    have hrefused {message : Bytes} (hm : cstr message ≠ []) (hno : ∀ id, ¬ JsonKeyId keyId id) :
        Ends (emitError message) w fun rc w' =>
          (∃ text, EmitsText value keyId .json text ∧ Delivered w₀ v w.out text rc w') ∨
          ((∀ text, ¬ EmitsText value keyId .json text) ∧ Withheld w₀ v w.out rc w') := by
      refine (emitError_withheld h hm).mono fun rc w' hw => .inr ⟨fun text ht => ?_, hw⟩
      obtain ⟨id, hid, -⟩ := emitsText_json ht
      exact hno id hid
    refine Ends.ite (fun h0 => OutputMode.noConfusion h0) fun _ => ?_
    cases keyId with
    | none => exact hrefused (by decide) fun id hid => by simp [JsonKeyId] at hid
    | some id =>
      refine .ite (fun hempty => ?_) fun hne => .ite (fun hbad => ?_) fun hgood => ?_
      · exact hrefused (by decide) fun id' hid => (jsonKeyId_some hid).1 hempty
      · refine hrefused (by decide) fun id' hid => ?_
        rw [(Utf8Validation.isValidUtf8_wellFormed id).2 (jsonKeyId_some hid).2] at hbad
        exact Bool.noConfusion hbad
      · rw [Bool.not_eq_true', Bool.not_eq_false, Utf8Validation.isValidUtf8_wellFormed] at hgood
        exact ((jsonRecord_writes value id).delivered h).mono
          fun _ _ hd => .inl ⟨_, .json ⟨rfl, hne, hgood⟩, hd⟩

end Emit

theorem saltCliEmitOutput_json (w : World) (value : CString) (keyId : Option CString)
    (hvalue : Utf8Text.WellFormed value.bytes) (haccepts : w.out.Accepts)
    (hclear : w.out.errorFlag = false) :
    Ends (saltCliEmitOutput .json value keyId) w fun rc w' =>
      (rc = .ok ↔ ∃ id, JsonKeyId keyId id) ∧
      (rc ≠ .ok → w'.out = w.out) ∧
      ∀ id, JsonKeyId keyId id → ∃ text,
        w'.out.delivered = accepted w.out ++ (text ++ [10]) ∧ w'.out.pending = [] ∧
        Utf8Text.WellFormed (text ++ [10]) ∧ (∀ b ∈ text, 0x20 ≤ b) ∧
        JsonText.decode text = some (recordValue value.bytes id.bytes) ∧
        ∀ v, JsonText.Text text v ↔ v = recordValue value.bytes id.bytes := by
  refine (saltCliEmitOutput_spec (Tracks.refl w) .json value keyId).mono fun rc w' hends => ?_
  rcases hends with ⟨text, htext, hd⟩ | ⟨hnone, hw⟩
  · obtain ⟨id, hid, rfl⟩ := emitsText_json htext
    have hok := hd.accepts haccepts hclear
    refine ⟨⟨fun _ => ⟨id, hid⟩, fun _ => hok⟩, fun hne => absurd hok hne, fun id' hid' => ?_⟩
    obtain rfl : id = id' := Option.some.inj (hid.1.symm.trans hid'.1)
    have htext := jsonRecord_text value.bytes id.bytes
    exact ⟨jsonRecord value.bytes id.bytes, (hd.whole hok).1, (hd.whole hok).2,
      (jsonRecord_wellFormed hvalue hid.2.2).append (Utf8Text.wellFormed_of_ascii (by decide)),
      jsonRecord_printable _ _, JsonText.decode_of_text htext,
      fun v => ⟨fun hv => JsonText.text_unique hv htext, fun hv => hv ▸ htext⟩⟩
  · have hrefused (id : CString) : ¬ JsonKeyId keyId id := fun hid => hnone _ (.json hid)
    refine ⟨⟨fun hok => ?_, fun ⟨id, hid⟩ => absurd hid (hrefused id)⟩, fun _ => hw.out,
      fun id hid => absurd hid (hrefused id)⟩
    rw [hw.status] at hok
    exact SaltStatus.noConfusion hok

theorem saltCliEmitOutput_json_quotes :
    let value : CString := ⟨ascii "QQ==", by decide⟩
    let keyId : CString := ⟨[34, 9, 0xC3, 0xA9], by decide⟩
    let w := freshWorld (calmEnv SealingCorrect.referenceSodium) [] []
    Ends (saltCliEmitOutput .json value (some keyId)) w fun rc w' => rc = .ok ∧
      ∃ text, w'.out.delivered = text ++ [10] ∧
        JsonText.decode text = some (recordValue value.bytes keyId.bytes) := by
  intro value keyId w
  have hid : JsonKeyId (some keyId) keyId :=
    ⟨rfl, by decide, (Utf8Validation.isValidUtf8_wellFormed keyId).1 (by decide)⟩
  obtain ⟨hiff, -, hall⟩ := saltCliEmitOutput_json w value (some keyId)
    (Utf8Text.wellFormed_of_ascii (by decide)) (fun _ => ⟨0, rfl⟩) rfl
  obtain ⟨text, hdelivered, -, -, -, hdecode, -⟩ := hall keyId hid
  exact ⟨hiff.2 ⟨keyId, hid⟩, text, hdelivered, hdecode⟩

end Salt.EmissionCorrect
