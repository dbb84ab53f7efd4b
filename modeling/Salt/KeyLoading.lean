import Salt.KeyInputCorrect
import Salt.ReadCorrect

set_option autoImplicit false

/-!
# Loading the key

The loader is specified by what it takes and by the state it leaves, for every
pattern of faults. Without a fault it succeeds on every key text of the CLI.
-/
namespace Salt.KeyLoading
open ByteStrings BlockHeap TracedState Sealing KeyParsing Trimming KeyParsingCorrect
  KeyInputCorrect Framing Tracking ReportingCorrect Ownership ReadCorrect

theorem memchr_terminated {text : Bytes} (htext : 0 ∉ text) (rest : Bytes) (n : ℕ) :
    memchr (text ++ 0 :: rest) 0 n = some (if text.length < n then some text.length else none) := by
  induction text generalizing n with
  | nil => cases n <;> rfl
  | cons c text ih =>
    simp only [List.mem_cons, not_or] at htext
    cases n with
    | zero => rfl
    | succ n =>
      rw [List.cons_append, memchr, if_neg (Ne.symm htext.1), ih htext.2]
      by_cases hlt : text.length < n
      · simp [hlt]
      · simp [hlt]

theorem cliBoundedStrlen_terminated {text : Bytes} (htext : 0 ∉ text) (rest : Bytes) (n : ℕ) :
    cliBoundedStrlen (text ++ 0 :: rest) n = some (min text.length n) := by
  rw [cliBoundedStrlen, memchr_terminated htext]
  by_cases hlt : text.length < n
  · rw [if_pos hlt, min_eq_left hlt.le]
    rfl
  · rw [if_neg hlt, min_eq_right (not_lt.1 hlt)]
    rfl

theorem copyString_eq (text rest : Bytes) {dest : Bytes} (h : dest.length = text.length + 1) :
    copyString (text ++ 0 :: rest) dest text.length = some (text ++ [0]) := by
  have hcopy := copyBytes_append text [] dest (0 :: rest) (by omega)
  rw [List.nil_append, List.nil_append, List.nil_append, List.length_nil] at hcopy
  obtain ⟨c, hc⟩ : ∃ c, dest.drop text.length = [c] := by
    rw [← List.length_eq_one_iff, List.length_drop]
    omega
  rw [copyString, hcopy, Option.bind_some, overwrite, hc, store_of_lt (by simp), set_append_right]

section Key
variable {w₀ w : World} {v : View}

def fetchedState (s : CliState) (id : ℕ) : CliState :=
  { s with stdinKey := some id, keyOption := some (.block id) }

theorem tidy_fetched {s : CliState} {heap : Heap} {bytes : Bytes} (ht : Tidy s heap)
    (hslot : s.stdinKey = none) (hlen : bytes.length = saltMaxKeyInputLen + 1) :
    Tidy { s with stdinKey := some heap.length }
      (heap ++ [⟨saltMaxKeyInputLen + 1, bytes, []⟩]) :=
  ht.adopt (o := .stdinKey) hslot hlen (Nat.succ_pos _) (funext fun o => by cases o <;> rfl)
    (funext fun o => by cases o <;> rfl) rfl rfl rfl

theorem boundedCstr_append (text rest : Bytes) :
    boundedCstr (text ++ rest) (text.length + 1) = cstr text := by
  rw [boundedCstr, Nat.add_sub_cancel, List.take_left]

theorem trim_filled (text rest : Bytes) : ∃ tail,
    saltCliTrimWhitespaceInplace (text ++ 0 :: rest) (text.length + 1) =
      some (trim (cstr text) ++ 0 :: tail) ∧
    (trim (cstr text) ++ 0 :: tail).length = (text ++ 0 :: rest).length := by
  have hle : text.length + 1 ≤ (text ++ 0 :: rest).length := by simp
  obtain ⟨tail, htrim, hlen, -⟩ := saltCliTrimWhitespaceInplace_eq (Nat.succ_pos text.length) hle
  rw [Nat.succ_eq_add_one, boundedCstr_append] at htrim hlen
  refine ⟨tail, htrim, ?_⟩
  rw [← hlen, List.length_append, List.length_cons]
  omega

/-- Either the whole stream is in its block, trimmed up to the first NUL, or there was a report. -/
def Fetched (w₀ : World) (v : View) (rc : SaltStatus) (w' : World) : Prop :=
  (rc = .ok ∧ v.input.rest.length ≤ saltMaxKeyInputLen ∧ trim (cstr v.input.rest) ≠ [] ∧
    ∃ tail input, (trim (cstr v.input.rest) ++ 0 :: tail).length = saltMaxKeyInputLen + 1 ∧
      Tracks w₀ { v with
        input := input
        heap := v.heap ++ [⟨saltMaxKeyInputLen + 1, trim (cstr v.input.rest) ++ 0 :: tail, []⟩]
        state := fetchedState v.state v.heap.length } w') ∨
  (Failed v.err v.undefined v.positionals rc w' ∧ (FaultFree w₀ →
    ¬ (v.input.rest.length ≤ saltMaxKeyInputLen ∧ trim (cstr v.input.rest) ≠ [])))

theorem loadKeyFromStdin_fetched (h : Tracks w₀ v w) (ht : Tidy v.state v.heap)
    (hslot : v.state.stdinKey = none) : Ends loadKeyFromStdin w (Fetched w₀ v) := by
  have hmax : saltMaxKeyInputLen ≤ sizeMax w₀.env.width - 1 := by
    have := modulus_large w₀.env.width
    rw [sizeMax, show saltMaxKeyInputLen = 16384 from rfl]
    omega
  refine (cliInputReadStreamLimited_answered h hmax).bind fun r w₁ hr => ?_
  rcases hr with ⟨tail, input, rfl, hlen, h₁⟩ | ⟨hrc, hnone, hfault, message, heap, input, hm, hheap, h₁⟩
  · refine (modifyState_tracks h₁ _).bind fun _ w₂ h₂ => ?_
    obtain ⟨tail', htrim, hlen'⟩ := trim_filled v.input.rest tail
    have hbytes := hlen'.trans hlen
    refine (editBlock_last h₂ rfl htrim).bind fun _ w₃ h₃ => ?_
    obtain ⟨c, hc, hzero⟩ := head_zero_iff (trim_noNul (cstr_noNul v.input.rest)) tail'
    refine (readByte_tracks h₃ (i := 0) (c := c) (by rw [bytesAt_append]; exact hc)).bind
      fun first w₄ ⟨hfirst, h₄⟩ => ?_
    subst hfirst
    refine .ite (fun h0 => ?_) fun h0 => ?_
    · refine (saltCliReportStreamStatus_failed h₄ true (by decide)
        ⟨ascii "key input from stdin is empty", by decide, .inl (by decide)⟩
        (tidy_fetched ht hslot hbytes)).mono fun _ _ hf => .inr ⟨hf, fun _ hcond => ?_⟩
      exact hcond.2 (hzero.1 h0)
    · refine (modifyState_tracks h₄ _).bind fun _ w₅ h₅ =>
        .ret (.inl ⟨rfl, ?_, fun hnil => ?_, tail', input, hbytes, h₅⟩)
      · rw [List.length_append, List.length_cons] at hlen
        omega
      · exact h0 (hzero.2 hnil)
  · obtain ⟨rc, result⟩ := r
    obtain rfl : result = none := hnone
    refine (refused_reported h₁ ht hrc hm hheap).mono fun _ _ hf => .inr ⟨hf, fun h₀ hc => ?_⟩
    have := hfault h₀
    omega

def refBytes (heap : Heap) : TextRef → Bytes
  | .text s => s.memory
  | .block id => bytesAt heap id

def copiedState (s : CliState) (id len : ℕ) : CliState :=
  { s with trimmedKeyInput := some id, trimmedKeyInputCap := len + 1 }

theorem tidy_copied {s : CliState} {heap : Heap} {bytes : Bytes} {len : ℕ} (ht : Tidy s heap)
    (hslot : s.trimmedKeyInput = none) (hlen : bytes.length = len + 1) :
    Tidy (copiedState s heap.length len) (heap ++ [⟨len + 1, bytes, []⟩]) :=
  ht.adopt (o := .trimmedKeyInput) hslot hlen (Nat.succ_pos _) (funext fun o => by cases o <;> rfl)
    (funext fun o => by cases o <;> rfl) rfl rfl rfl

theorem copyKeyOption_copied (h : Tracks w₀ v w) (ht : Tidy v.state v.heap)
    {text rest : Bytes} (htext : 0 ∉ text)
    (hsource : v.state.keyOption.elim [] (refBytes v.heap) = text ++ 0 :: rest) :
    Ends copyKeyOption w fun rc w' =>
      (rc = .ok ∧ text.length ≤ saltMaxKeyInputLen ∧
        ∃ tail, (trim text ++ 0 :: tail).length = text.length + 1 ∧ Tracks w₀ { v with
          heap := v.heap ++ [⟨text.length + 1, trim text ++ 0 :: tail, []⟩]
          state := copiedState v.state v.heap.length text.length } w') ∨
      (Failed v.err v.undefined v.positionals rc w' ∧
        (saltMaxKeyInputLen < text.length ∨ w.env.alloc w.clock = none)) := by
  have hmemory : w.state.keyOption.elim [] (refMemory w) = text ++ 0 :: rest := by
    rw [← hsource, ← h.heap, h.state]
    cases v.state.keyOption with
    | none => rfl
    | some ref => cases ref <;> rfl
  refine Ends.bind_read rfl (Ends.bind_read hmemory ?_)
  rw [cliBoundedStrlen_terminated htext]
  refine .ite (fun hlong => ?_) fun hshort => ?_
  · refine (saltCliReportStreamStatus_failed h true (by decide)
      ⟨ascii "key input exceeds maximum length (" ++ decimal saltMaxKeyInputLen ++ ascii " bytes)",
        by decide, .inl (by decide)⟩ ht).mono fun _ _ hf => .inr ⟨hf, .inl ?_⟩
    omega
  have hlen : min text.length (saltMaxKeyInputLen + 1) = text.length := by omega
  rw [hlen]
  refine (saltCliAllocImpl_tracks h _).bind fun copy w₁ hcopy => ?_
  rcases hcopy with ⟨rfl, hnone, h₁⟩ | ⟨content, rfl, -, h₁⟩
  · exact (saltCliReportStreamStatus_failed h₁ true (by decide)
      ⟨ascii "failed to allocate key buffer", by decide, .inr (by decide)⟩ ht).mono
      fun _ _ hf => .inr ⟨hf, .inr hnone⟩
  refine (modifyState_tracks h₁ _).bind fun _ w₂ h₂ => ?_
  refine (sodiumMlock_tracks h₂ _).bind fun _ w₃ h₃ => ?_
  refine (editBlock_last h₃ rfl (copyString_eq text rest (fresh_length _ _))).bind
    fun _ w₄ h₄ => ?_
  obtain ⟨tail, htrim, hbytes⟩ := trim_buffer htext []
  have hsize : (text ++ [0]).length = text.length + 1 := by simp
  rw [hsize] at htrim hbytes
  refine (editBlock_last h₄ rfl htrim).bind fun _ w₅ h₅ => ?_
  exact .ret (.inl ⟨rfl, by omega, tail, hbytes, h₅⟩)

theorem parseKeyOfState_tracks (h : Tracks w₀ v w) {rc : SaltStatus} {out : KeyOut}
    (hrun : saltCliParseKeyInput (v.state.trimmedKeyInput.map (bytesAt v.heap)) v.state.keyFormat
      ⟨some v.state.parsedKeyB64, some v.state.parsedKeyId, some v.state.parsedHasKeyId,
        some v.state.error⟩ = some (rc, out)) :
    Ends parseKeyOfState w fun a w' =>
      a = rc ∧ Tracks w₀ { v with state := withParsed out v.state } w' := by
  have hparse : parseTrimmedKey w = some (rc, out) := by
    rw [← h.state, ← h.heap] at hrun
    exact hrun
  have hstep : (parseKeyOfState w).value = rc ∧
      (parseKeyOfState w).final = { w with state := withParsed out w.state } := by
    simp [parseKeyOfState, hparse]
  refine ⟨hstep.1, h.after parseKeyOfState_internal ?_⟩
  rw [hstep.2, ← h.view]
  rfl

/-- The key texts the CLI accepts, with the sizes of its buffers. -/
abbrev CliKeyText (keyFormat : KeyFormat) (text key : Bytes) (keyId : Option Bytes) : Prop :=
  KeyText keyFormat (saltMaxKeyInputLen + 1) (some (saltMaxKeyIdLen + 1)) text key keyId

def parsedState (s : CliState) (keyB64 keyIdBuffer : Bytes) (keyId : Option Bytes) : CliState :=
  { s with
    parsedKeyB64 := keyB64
    parsedKeyId := keyIdBuffer
    parsedHasKeyId := decide (trim (keyId.getD []) ≠ []) }

theorem getD_length {o : Option Bytes} {b : Bytes} (h : o.map List.length = some b.length) :
    (o.getD b).length = b.length := by
  cases o with
  | none => rfl
  | some c => exact Option.some.inj h

theorem parseKeyOfState_parsed (h : Tracks w₀ v w) (ht : Tidy v.state v.heap) {text tail : Bytes}
    (htext : 0 ∉ text)
    (hblock : v.state.trimmedKeyInput.map (bytesAt v.heap) = some (text ++ 0 :: tail)) :
    Ends parseKeyOfState w fun rc w' =>
      (rc = .ok ∧ ∃ key id keyB64 keyIdBuffer, CliKeyText v.state.keyFormat text key id ∧
        cstr keyB64 = trim key ∧ cstr keyIdBuffer = trim (id.getD []) ∧
        keyB64.length = v.state.parsedKeyB64.length ∧
        keyIdBuffer.length = v.state.parsedKeyId.length ∧
        Tracks w₀ { v with state := parsedState v.state keyB64 keyIdBuffer id } w') ∨
      (rc ≠ .ok ∧ (∀ key id, ¬ CliKeyText v.state.keyFormat text key id) ∧
        ∃ s, Tidy s v.heap ∧ cstr s.error ≠ [] ∧ Tracks w₀ { v with state := s } w') := by
  have hne : v.state.parsedKeyB64 ≠ [] := by
    intro hnil
    have hsize := ht.parsedKeyB64
    rw [hnil] at hsize
    exact absurd hsize (by decide)
  obtain ⟨rc, out, hrun, hsizes, -, hreported, hsound, hcomplete⟩ :=
    saltCliParseKeyInput_eq htext tail v.state.keyFormat hne (some v.state.parsedKeyId)
      (some v.state.error) v.state.parsedHasKeyId
  rw [ht.parsedKeyB64, Option.map_some, ht.parsedKeyId] at hsound hcomplete
  rw [← hblock] at hrun
  obtain ⟨hb64, hkeyId, herror⟩ := hsizes
  refine (parseKeyOfState_tracks h hrun).mono fun a w' ⟨ha, h'⟩ => ?_
  subst ha
  by_cases hok : a = .ok
  · obtain ⟨key, id, hkey⟩ := hsound hok
    obtain ⟨-, ⟨tail', hout, hlen⟩, hcstr, -, hflag, herr⟩ := hcomplete key id hkey
    obtain ⟨keyIdBuffer, hid⟩ : ∃ b, out.keyId = some b := by
      cases hid : out.keyId with
      | none => simp [hid] at hkeyId
      | some b => exact ⟨b, rfl⟩
    rw [hid, Option.map_some, Option.map_some, Option.some.injEq] at hkeyId hcstr
    refine .inl ⟨hok, key, id, _, keyIdBuffer, hkey, ?_, hcstr, hlen, hkeyId, ?_⟩
    · exact cstr_append_zero (trim_noNul (hkey.noNul htext)) tail'
    · have hstate : withParsed out v.state =
          parsedState v.state (trim key ++ 0 :: tail') keyIdBuffer id := by
        simp [withParsed, parsedState, hout, hid, hflag, herr]
      rw [← hstate]
      exact h'
  · refine .inr ⟨hok, fun key id hkey => hok (hcomplete key id hkey).1, _, ?_, ?_, h'⟩
    · exact ht.congr (funext fun o => by cases o <;> rfl) (fun o _ => by cases o <;> rfl)
        (getD_length hb64) (getD_length hkeyId) (getD_length herror)
    · obtain ⟨buffer, hbuffer, -, -, hmessage⟩ := hreported hok v.state.error rfl
        (by rw [ht.error]; decide)
      simpa [withParsed, hbuffer] using hmessage

/-- Where the key text is: the input stream or the option. -/
def keySource (v : View) : Bytes :=
  if v.state.keyFromStdin then v.input.rest
  else match v.state.keyOption with
    | some (.text s) => s.bytes
    | _ => []

structure KeyLoaded (v : View) (key : Bytes) (keyId : Option Bytes) (v' : View) : Prop where
  state : ∃ stdinKey keyOption trimmed trimmedCap keyB64 keyIdBuffer,
    v'.state = parsedState { v.state with
      stdinKey := stdinKey
      keyOption := keyOption
      trimmedKeyInput := trimmed
      trimmedKeyInputCap := trimmedCap } keyB64 keyIdBuffer keyId ∧
    cstr keyB64 = trim key ∧ cstr keyIdBuffer = trim (keyId.getD [])
  tidy : Tidy v'.state v'.heap
  input : v.state.keyFromStdin = false → v'.input = v.input
  positionals : v'.positionals = v.positionals
  err : v'.err = v.err
  undefined : v'.undefined = v.undefined

theorem copiedKey_loaded (h : Tracks w₀ v w) (ht : Tidy v.state v.heap)
    (htrimmed : v.state.trimmedKeyInput = none) {text rest : Bytes} (htext : 0 ∉ text)
    (hsource : v.state.keyOption.elim [] (refBytes v.heap) = text ++ 0 :: rest) :
    Ends (do
      let rc ← copyKeyOption
      if rc ≠ .ok then return rc
      else
        let rc ← parseKeyOfState
        if rc ≠ .ok then saltCliReportStateError rc
        else reportIfInterrupted) w fun rc w' =>
      (rc = .ok ∧ text.length ≤ saltMaxKeyInputLen ∧ ∃ key id v',
        CliKeyText v.state.keyFormat (trim text) key id ∧ v'.input = v.input ∧
        KeyLoaded v key id v' ∧ Tracks w₀ v' w') ∨
      (Failed v.err v.undefined v.positionals rc w' ∧ (FaultFree w₀ →
        ¬ (text.length ≤ saltMaxKeyInputLen ∧
          ∃ key id, CliKeyText v.state.keyFormat (trim text) key id))) := by
  refine (copyKeyOption_copied h ht htext hsource).bind fun rc w₁ hcopy => ?_
  rcases hcopy with ⟨rfl, hle, tail, hlen, h₁⟩ | ⟨hf, hlong⟩
  · have ht₁ := tidy_copied ht htrimmed hlen
    have hblock := congrArg some
      (bytesAt_append v.heap ⟨text.length + 1, trim text ++ 0 :: tail, []⟩)
    refine (parseKeyOfState_parsed h₁ ht₁ (trim_noNul htext) hblock).bind fun rc w₂ hparse => ?_
    rcases hparse with ⟨rfl, key, id, keyB64, keyIdBuffer, hkey, hb64, hid, hlb, hli, h₂⟩ |
      ⟨hrc, hnone, s, hts, herror, h₂⟩
    · have ht₂ : Tidy (parsedState (copiedState v.state v.heap.length text.length) keyB64
          keyIdBuffer id) (v.heap ++ [⟨text.length + 1, trim text ++ 0 :: tail, []⟩]) :=
        ht₁.congr (funext fun o => by cases o <;> rfl) (fun o _ => by cases o <;> rfl) hlb hli rfl
      refine (reportIfInterrupted_failed h₂ ht₂).mono fun rc w₃ hend => ?_
      rcases hend with ⟨rfl, h₃⟩ | ⟨hf, hfault⟩
      · refine .inl ⟨rfl, hle, key, id, _, hkey, ?_, ?_, h₃⟩
        · rfl
        · exact ⟨⟨_, _, _, _, keyB64, keyIdBuffer, rfl, hb64, hid⟩, ht₂, fun _ => rfl, rfl, rfl, rfl⟩
      · exact .inr ⟨hf, fun h₀ => absurd h₀ hfault⟩
    · rw [if_pos hrc]
      refine (saltCliReportStateError_failed h₂ hrc herror hts).mono fun _ _ hf => .inr ⟨hf, ?_⟩
      rintro - ⟨-, key, id, hkey⟩
      exact hnone key id hkey
  · rw [if_pos hf.ne_ok]
    refine .ret (.inr ⟨hf, fun h₀ hcond => ?_⟩)
    have := hlong.resolve_right fun hnone => h.no_fault hnone h₀
    omega

/-- The key stage: the text is loaded and accepted, or there is one diagnostic. -/
theorem saltCliInputLoadKeyInput_loaded (h : Tracks w₀ v w) (ht : Tidy v.state v.heap)
    (hstdin : v.state.stdinKey = none) (htrimmed : v.state.trimmedKeyInput = none)
    (hoption : v.state.keyFromStdin = false → ∃ s, v.state.keyOption = some (.text s)) :
    Ends saltCliInputLoadKeyInput w fun rc w' =>
      (rc = .ok ∧ (keySource v).length ≤ saltMaxKeyInputLen ∧ ∃ key id v',
        CliKeyText v.state.keyFormat (trim (cstr (keySource v))) key id ∧
        KeyLoaded v key id v' ∧ Tracks w₀ v' w') ∨
      (Failed v.err v.undefined v.positionals rc w' ∧ (FaultFree w₀ →
        ¬ ((keySource v).length ≤ saltMaxKeyInputLen ∧
          ∃ key id, CliKeyText v.state.keyFormat (trim (cstr (keySource v))) key id))) := by
  cases hk : v.state.keyFromStdin with
  | false =>
    obtain ⟨s, hs⟩ := hoption hk
    have hsource : keySource v = s.bytes := by simp [keySource, hk, hs]
    rw [hsource, cstr_of_noNul s.noNul]
    have hskip : Ends keyFromStdinStage w fun rc w' => rc = .ok ∧ Tracks w₀ v w' := by
      refine (getState_tracks h).bind fun s w₁ ⟨hs, h₁⟩ => ?_
      subst hs
      rw [hk]
      exact .ret ⟨rfl, h₁⟩
    refine hskip.bind fun rc w₁ ⟨hrc, h₁⟩ => ?_
    subst hrc
    have hterminated : v.state.keyOption.elim [] (refBytes v.heap) = s.bytes ++ 0 :: [] := by
      rw [hs]
      rfl
    refine (copiedKey_loaded h₁ ht htrimmed s.noNul hterminated).mono
      fun rc w₂ hend => ?_
    rcases hend with ⟨rfl, hle, key, id, v', hkey, -, hloaded, h₂⟩ | hf
    · exact .inl ⟨rfl, hle, key, id, v', hkey, hloaded, h₂⟩
    · exact .inr hf
  | true =>
    have hsource : keySource v = v.input.rest := by simp [keySource, hk]
    rw [hsource]
    have hfetch : Ends keyFromStdinStage w (Fetched w₀ v) := by
      refine (getState_tracks h).bind fun s w₁ ⟨hs, h₁⟩ => ?_
      subst hs
      rw [hk]
      exact loadKeyFromStdin_fetched h₁ ht hstdin
    refine hfetch.bind fun rc w₁ hfetched => ?_
    rcases hfetched with ⟨rfl, hle, hne, tail, input, hlen, h₁⟩ | ⟨hf, hfault⟩
    · have ht₁ : Tidy (fetchedState v.state v.heap.length) (v.heap ++
          [⟨saltMaxKeyInputLen + 1, trim (cstr v.input.rest) ++ 0 :: tail, []⟩]) :=
        (tidy_fetched ht hstdin hlen).congr rfl (fun _ _ => rfl) rfl rfl rfl
      refine (copiedKey_loaded h₁ ht₁ htrimmed (trim_noNul (cstr_noNul v.input.rest))
        (bytesAt_append v.heap _)).mono fun rc w₂ hend => ?_
      rw [trim_trim] at hend
      rcases hend with ⟨rfl, -, key, id, v', hkey, -, hloaded, h₂⟩ | ⟨hf, hfault⟩
      · obtain ⟨⟨_, _, _, _, keyB64, keyIdBuffer, hstate, hb64, hid⟩, ht₂, -, hpos, herr, hund⟩ :=
          hloaded
        refine .inl ⟨rfl, hle, key, id, v', hkey, ?_, h₂⟩
        exact ⟨⟨_, _, _, _, keyB64, keyIdBuffer, hstate, hb64, hid⟩, ht₂,
          fun hfalse => absurd (hk.symm.trans hfalse) (by decide), hpos, herr, hund⟩
      · refine .inr ⟨hf, fun h₀ hcond => hfault h₀ ⟨?_, hcond.2⟩⟩
        have htrim := trim_length_le (cstr v.input.rest)
        have hcstr : (cstr v.input.rest).length ≤ v.input.rest.length :=
          (List.takeWhile_sublist _).length_le
        exact le_trans htrim (le_trans hcstr hcond.1)
    · rw [if_pos hf.ne_ok]
      refine .ret (.inr ⟨hf, ?_⟩)
      rintro h₀ ⟨hle, key, id, hkey⟩
      refine hfault h₀ ⟨hle, fun hnil => hkey.not_blank ?_⟩
      rw [hnil]
      simp [KeyGrammar.Blank]

end Key

end Salt.KeyLoading
