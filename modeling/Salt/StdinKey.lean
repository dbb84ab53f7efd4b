import Salt.KeyLoading
import Salt.SealingCorrect

set_option autoImplicit false

/-!
# How much of a key from stdin is used

The reader keeps the length of the stream, and everything behind it works on
NUL-terminated strings. A key text is used as a whole just when it has no NUL,
and a NUL does no harm just when the text before it is refused.
-/
namespace Salt.StdinKey
open ByteStrings TracedState KeyParsing Trimming KeyGrammar KeyParsingCorrect KeyInputCorrect
  Framing Tracking Ownership KeyLoading

structure ReadsKey (s : Bytes) (keyFormat : KeyFormat) (w : World) : Prop where
  stream : w.input.rest = s
  fromStdin : w.state.keyFromStdin = true
  format : w.state.keyFormat = keyFormat
  stdinKey : w.state.stdinKey = none
  trimmed : w.state.trimmedKeyInput = none
  tidy : Tidy w.state w.heap

/-- The parsed key comes from the whole stream, without the white space around it. -/
structure WholeUsed (s : Bytes) (keyFormat : KeyFormat) (state : CliState) : Prop where
  raw : readsAsJson keyFormat s = false → cstr state.parsedKeyB64 = trim s
  json : readsAsJson keyFormat s = true → ∃ key id,
    Accepts (trim s) (saltMaxKeyInputLen + 1) (some (saltMaxKeyIdLen + 1)) key id ∧
      cstr state.parsedKeyB64 = trim key

theorem firstByte_cstr {s : Bytes} (h : ¬ Blank (cstr s)) : firstByte s = firstByte (cstr s) := by
  by_cases h0 : 0 ∈ s
  · obtain ⟨rest, hrest⟩ := exists_cstr_append h0
    conv_lhs => rw [hrest]
    exact firstByte_append h _
  · rw [cstr_of_noNul h0]

/-- The choice of the format sees the same first byte before and after the truncation. -/
theorem readsAsJson_text {s : Bytes} (keyFormat : KeyFormat) (h : ¬ Blank (trim (cstr s))) :
    readsAsJson keyFormat (trim (cstr s)) = readsAsJson keyFormat s := by
  have h' : ¬ Blank (cstr s) := by
    rw [← trim_eq_nil_iff, trim_trim, trim_eq_nil_iff] at h
    exact h
  rw [readsAsJson, readsAsJson, firstByte_trim _ h', firstByte_cstr h']

theorem zero_mem_trim {s : Bytes} (h : 0 ∈ s) : 0 ∈ trim s := by
  have hdrop : 0 ∈ s.dropWhile cliIsAsciiWs := by
    rw [← List.takeWhile_append_dropWhile (p := cliIsAsciiWs) (l := s)] at h
    rcases List.mem_append.1 h with h | h
    · exact absurd (List.mem_takeWhile_imp h) (by decide)
    · exact h
  have hreverse : 0 ∈ (s.dropWhile cliIsAsciiWs).reverse := List.mem_reverse.2 hdrop
  rw [← List.takeWhile_append_dropWhile (p := cliIsAsciiWs)
    (l := (s.dropWhile cliIsAsciiWs).reverse)] at hreverse
  rcases List.mem_append.1 hreverse with h | h
  · exact absurd (List.mem_takeWhile_imp h) (by decide)
  · exact List.mem_reverse.2 h

theorem loadKey_of_stdin {s : Bytes} {keyFormat : KeyFormat} {w : World}
    (h : ReadsKey s keyFormat w) :
    Ends saltCliInputLoadKeyInput w fun rc w' =>
      (rc = .ok → ∃ key id, CliKeyText keyFormat (trim (cstr s)) key id ∧
        cstr w'.state.parsedKeyB64 = trim key) ∧
      (FaultFree w → s.length ≤ saltMaxKeyInputLen →
        (∃ key id, CliKeyText keyFormat (trim (cstr s)) key id) → rc = .ok) := by
  have hsource : keySource (view w) = s := by
    have hstdin : (view w).state.keyFromStdin = true := h.fromStdin
    rw [keySource, if_pos hstdin]
    exact h.stream
  have hload := saltCliInputLoadKeyInput_loaded (.refl w) h.tidy h.stdinKey h.trimmed
    fun hfalse => absurd (h.fromStdin.symm.trans hfalse) (by decide)
  rw [hsource] at hload
  refine hload.mono fun rc w' hend => ?_
  rcases hend with ⟨rfl, -, key, id, v', hkey, hloaded, h'⟩ | ⟨hf, hnone⟩
  · refine ⟨fun _ => ⟨key, id, by rw [← h.format]; exact hkey, ?_⟩, fun _ _ _ => rfl⟩
    obtain ⟨_, _, _, _, keyB64, _, hstate, hb64, -⟩ := hloaded.state
    rw [h'.state, hstate]
    exact hb64
  · refine ⟨fun hok => absurd hok hf.ne_ok, fun h₀ hle hkey => absurd ⟨hle, ?_⟩ (hnone h₀)⟩
    have hformat : (view w).state.keyFormat = keyFormat := h.format
    rw [hformat]
    exact hkey

theorem wholeUsed_of_keyText {s key : Bytes} {id : Option Bytes} {keyFormat : KeyFormat}
    {state : CliState} (h0 : 0 ∉ s) (h : CliKeyText keyFormat (trim (cstr s)) key id)
    (hstate : cstr state.parsedKeyB64 = trim key) : WholeUsed s keyFormat state := by
  have hmode := readsAsJson_text keyFormat h.not_blank
  rw [cstr_of_noNul h0] at h hmode
  cases h with
  | raw hformat hfits hblank =>
    refine ⟨fun _ => by rw [hstate, trim_trim], fun hjson => ?_⟩
    exact absurd (hformat.symm.trans (hmode.trans hjson)) (by decide)
  | json hformat hacc =>
    exact ⟨fun hraw => absurd (hformat.symm.trans (hmode.trans hraw)) (by decide),
      fun _ => ⟨key, id, hacc, hstate⟩⟩

theorem not_wholeUsed {s : Bytes} {keyFormat : KeyFormat} {state : CliState} (h0 : 0 ∈ s) :
    ¬ WholeUsed s keyFormat state := by
  intro h
  have hmem := zero_mem_trim h0
  cases hmode : readsAsJson keyFormat s with
  | false => exact cstr_noNul state.parsedKeyB64 (by rw [h.raw hmode]; exact hmem)
  | true =>
    obtain ⟨key, id, ⟨⟨ms, hobject, -⟩, -⟩, -⟩ := h.json hmode
    exact hobject.noNul hmem

def stdinWorld (s : Bytes) (keyFormat : KeyFormat) : World :=
  { freshWorld (calmEnv SealingCorrect.referenceSodium) s [] with
    state := { zeroState with keyFromStdin := true, keyFormat := keyFormat } }

theorem stdinWorld_readsKey (s : Bytes) (keyFormat : KeyFormat) :
    ReadsKey s keyFormat (stdinWorld s keyFormat) where
  stream := rfl
  fromStdin := rfl
  format := rfl
  stdinKey := rfl
  trimmed := rfl
  tidy := (tidy_zeroState (by simp [stdinWorld, freshWorld])).congr
    (funext fun o => by cases o <;> rfl) (fun o _ => by cases o <;> rfl) rfl rfl rfl

theorem stdinWorld_faultFree (s : Bytes) (keyFormat : KeyFormat) :
    FaultFree (stdinWorld s keyFormat) := by
  obtain ⟨ha, hs, hi, hin, he⟩ := freshWorld_faultFree SealingCorrect.referenceSodium s []
  exact ⟨ha, hs, hi, hin, he⟩

theorem stdinWorld_ok {s key : Bytes} {id : Option Bytes} {keyFormat : KeyFormat}
    (hs : s.length ≤ saltMaxKeyInputLen) (h : CliKeyText keyFormat (trim (cstr s)) key id) :
    (saltCliInputLoadKeyInput (stdinWorld s keyFormat)).value = .ok :=
  (loadKey_of_stdin (stdinWorld_readsKey s keyFormat)).2 (stdinWorld_faultFree s keyFormat) hs
    ⟨key, id, h⟩

/-- Every successful load uses the whole stream, just when no NUL hides a suffix. -/
theorem saltCliInputLoadKeyInput_whole_iff (s : Bytes) (hs : s.length ≤ saltMaxKeyInputLen)
    (keyFormat : KeyFormat) :
    (∀ w, ReadsKey s keyFormat w → (saltCliInputLoadKeyInput w).value = .ok →
        WholeUsed s keyFormat (saltCliInputLoadKeyInput w).final.state) ↔
      (0 ∈ s → ∀ key id, ¬ CliKeyText keyFormat (trim (cstr s)) key id) := by
  constructor
  · intro hwhole h0 key id hkey
    exact not_wholeUsed h0 (hwhole _ (stdinWorld_readsKey s keyFormat) (stdinWorld_ok hs hkey))
  · intro hnul w hw hok
    obtain ⟨key, id, hkey, hstate⟩ := (loadKey_of_stdin hw).1 hok
    exact wholeUsed_of_keyText (fun h0 => hnul h0 key id hkey) hkey hstate

theorem letterKey_text (keyFormat : KeyFormat) (hraw : readsAsJson keyFormat (ascii "A") = false) :
    CliKeyText keyFormat (ascii "A") (ascii "A") none :=
  .raw hraw (by decide) (by decide)

theorem saltCliInputLoadKeyInput_whole_letter :
    WholeUsed (ascii " A\n") .auto
      (saltCliInputLoadKeyInput (stdinWorld (ascii " A\n") .auto)).final.state := by
  have hkey : CliKeyText .auto (trim (cstr (ascii " A\n"))) (ascii "A") none :=
    letterKey_text .auto (by decide)
  exact (saltCliInputLoadKeyInput_whole_iff (ascii " A\n") (by decide) .auto).2
    (fun h0 => absurd h0 (by decide)) _ (stdinWorld_readsKey _ _)
    (stdinWorld_ok (by decide) hkey)

/-- The key `A`, a NUL and a `B`: the load succeeds, and the suffix is gone. -/
theorem saltCliInputLoadKeyInput_drops_suffix : ∃ w, ReadsKey [65, 0, 66] .base64 w ∧
    (saltCliInputLoadKeyInput w).value = .ok ∧
    ¬ WholeUsed [65, 0, 66] .base64 (saltCliInputLoadKeyInput w).final.state := by
  have hkey : CliKeyText .base64 (trim (cstr [65, 0, 66])) (ascii "A") none :=
    letterKey_text .base64 (by decide)
  exact ⟨stdinWorld [65, 0, 66] .base64, stdinWorld_readsKey _ _, stdinWorld_ok (by decide) hkey,
    not_wholeUsed (by decide)⟩

end Salt.StdinKey
