import Salt.World

set_option autoImplicit false

/-!
# What a stream has taken and what a stream still holds

The bytes an output stream has accepted are those delivered and those still in
its buffer. Every call extends them by a beginning of its data.
-/
namespace Salt.StreamFacts
open ByteStrings

def accepted (s : OutStream) : Bytes := s.delivered ++ s.pending

section Output
variable {s : OutStream}

theorem write_script (data : Bytes) (s : OutStream) : (s.write data).2.script = s.script := by
  unfold OutStream.write
  cases s.script s.ops <;> rfl

theorem flush_script (s : OutStream) : s.flush.2.script = s.script := by
  unfold OutStream.flush
  cases s.script s.ops <;> rfl

theorem write_accepts (data : Bytes) (h : s.Accepts) : (s.write data).2.Accepts := by
  unfold OutStream.Accepts
  rw [write_script]
  exact h

theorem flush_accepts (h : s.Accepts) : s.flush.2.Accepts := by
  unfold OutStream.Accepts
  rw [flush_script]
  exact h

theorem write_of_accepts (data : Bytes) (h : s.Accepts) : (s.write data).1 = true := by
  obtain ⟨n, hn⟩ := h s.ops
  rw [OutStream.write, hn]

theorem flush_of_accepts (h : s.Accepts) : s.flush.1 = true := by
  obtain ⟨n, hn⟩ := h s.ops
  rw [OutStream.flush, hn]

theorem write_accepted (data : Bytes) (s : OutStream) :
    ∃ n, accepted (s.write data).2 = accepted s ++ data.take n ∧
      ((s.write data).1 = true → data.take n = data) := by
  unfold OutStream.write accepted
  cases s.script s.ops with
  | ok n =>
    refine ⟨data.length, ?_, fun _ => List.take_length⟩
    simp only [List.append_assoc, List.take_append_drop, List.take_length]
  | fail kept n =>
    refine ⟨kept, ?_, fun h => Bool.noConfusion h⟩
    simp only [List.append_assoc, List.take_append_drop]

theorem flush_accepted (s : OutStream) : accepted s.flush.2 = accepted s := by
  unfold OutStream.flush accepted
  cases s.script s.ops with
  | ok n => exact List.append_nil _
  | fail kept n => simp only [List.append_assoc, List.take_append_drop]

theorem write_ok {data : Bytes} (h : (s.write data).1 = true) :
    (s.write data).2.errorFlag = s.errorFlag ∧ (s.write data).2.records = s.records ++ [data] := by
  unfold OutStream.write at h ⊢
  cases hs : s.script s.ops with
  | ok n => exact ⟨rfl, rfl⟩
  | fail kept n =>
    rw [hs] at h
    exact Bool.noConfusion h

theorem flush_ok (h : s.flush.1 = true) : s.flush.2 =
    { s with delivered := accepted s, pending := [], ops := s.ops + 1 } := by
  unfold OutStream.flush at h ⊢
  cases hs : s.script s.ops with
  | ok n => rfl
  | fail kept n =>
    rw [hs] at h
    exact Bool.noConfusion h

end Output

/-- The texts went out, one call each, and nothing is left in the buffer. -/
structure Received (s : OutStream) (texts : List Bytes) (s' : OutStream) : Prop where
  records : s'.records = s.records ++ texts
  delivered : s'.delivered = accepted s ++ texts.flatten
  pending : s'.pending = []
  script : s'.script = s.script

theorem Received.accepts {s s' : OutStream} {texts : List Bytes} (h : Received s texts s')
    (ha : s.Accepts) : s'.Accepts := by
  unfold OutStream.Accepts
  rw [h.script]
  exact ha

theorem Received.trans {s s' s'' : OutStream} {texts texts' : List Bytes}
    (h : Received s texts s') (h' : Received s' texts' s'') :
    Received s (texts ++ texts') s'' where
  records := by rw [h'.records, h.records, List.append_assoc]
  delivered := by
    rw [h'.delivered, accepted, h.pending, h.delivered, List.append_nil, List.flatten_append,
      List.append_assoc]
  pending := h'.pending
  script := h'.script.trans h.script

theorem received_of_write {s : OutStream} {data : Bytes} (hw : (s.write data).1 = true)
    (hf : (s.write data).2.flush.1 = true) :
    Received s [data] (s.write data).2.flush.2 := by
  rw [flush_ok hf]
  obtain ⟨n, hacc, hall⟩ := write_accepted data s
  refine ⟨(write_ok hw).2, ?_, rfl, write_script data s⟩
  simp only [hacc, hall hw, List.flatten_cons, List.flatten_nil, List.append_nil]

section Input
variable {s : InStream}

theorem fread_bytes (maxLen : ℕ) (s : InStream) : ∃ n, n ≤ maxLen ∧
    (s.fread maxLen).1 = s.rest.take n ∧ (s.fread maxLen).2.rest = s.rest.drop n ∧
    ((s.fread maxLen).2.errorFlag = false → n = maxLen) := by
  unfold InStream.fread
  cases s.readFault s.calls with
  | none => exact ⟨maxLen, le_refl _, rfl, rfl, fun _ => rfl⟩
  | some k => exact ⟨min maxLen k, Nat.min_le_left _ _, rfl, rfl, by simp⟩

theorem fread_reliable (maxLen : ℕ) (h : s.Reliable) : (s.fread maxLen).2.Reliable :=
  ⟨by simp [InStream.fread, h.errorFlag, h.readFault], h.readFault, h.ungetFault⟩

theorem fgetc_none (h : s.fgetc.1 = none) (herr : s.fgetc.2.errorFlag = false) : s.rest = [] := by
  unfold InStream.fgetc at h herr
  cases hf : s.readFault s.calls with
  | none =>
    cases hr : s.rest with
    | nil => rfl
    | cons c rest => simp [hf, hr] at h
  | some k => simp [hf] at herr

theorem fgetc_some {c : UInt8} (h : s.fgetc.1 = some c) : s.rest = c :: s.fgetc.2.rest := by
  unfold InStream.fgetc at h ⊢
  cases hf : s.readFault s.calls with
  | none =>
    cases hr : s.rest with
    | nil => simp [hf, hr] at h
    | cons d rest =>
      obtain rfl : d = c := by simpa [hf, hr] using h
      rfl
  | some k => simp [hf] at h

theorem fgetc_reliable (h : s.Reliable) : s.fgetc.2.Reliable := by
  unfold InStream.fgetc
  rw [h.readFault]
  cases s.rest with
  | nil => exact ⟨h.errorFlag, h.readFault, h.ungetFault⟩
  | cons c rest => exact ⟨h.errorFlag, h.readFault, h.ungetFault⟩

theorem ungetc_reliable (c : UInt8) (h : s.Reliable) : (s.ungetc c).2.Reliable := by
  unfold InStream.ungetc
  rw [if_neg (by simp [h.ungetFault])]
  exact ⟨h.errorFlag, h.readFault, h.ungetFault⟩

end Input
end Salt.StreamFacts
