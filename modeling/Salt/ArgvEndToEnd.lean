import Salt.CommandLine
import Salt.EndToEnd

set_option autoImplicit false

/-!
# A run without faults, from the words of the vector

Which vectors are served, and with what.
-/
namespace Salt.ArgvEndToEnd
open ByteStrings Base64Text TracedState Sealing OptionScan ArgvScan CommandLine SealingCorrect StreamFacts
  Framing Tracking ArgumentsCorrect PipelineCorrect RunCorrect EndToEnd

/-- The words spell options with good values, and help, version or an encryption can be had: one for
a key that `crypto_box_seal` takes. -/
def Serves (sodium : Sodium) (posixlyCorrect : Bool) (argc : ℤ) (argv : Option (List (Option CString)))
    (stdin : Bytes) : Prop :=
  ∃ options operands, Spelled posixlyCorrect argc argv options operands ∧
    (∀ e ∈ options, Valid e = true) ∧
    (options.any asksText = true ∨
      ∃ key keyId publicKey,
        Sealable sodium ⟨argc, argv, options, operands⟩ stdin key keyId publicKey)

theorem settingOf_valid {e : OptEvent} (h : Valid e = true) : settingOf e ≠ none := by
  cases e with
  | missingArgument _ | unknown _ _ => exact Bool.noConfusion h
  | _ => exact Option.some_ne_none _

/-- What a served vector gets: the text it asks for, or a record that opens to the plaintext. -/
structure Served (inv : Invocation) (w : World) (keyPair : Bytes → Bytes → Prop)
    (cryptoBoxSealOpen : Bytes → Bytes → Bytes → Option Bytes) (out : OutStream) : Prop where
  informed : inv.events.any asksText = true →
    out.delivered = accepted w.out ++ information inv w.env.version ∧ out.pending = []
  recorded : inv.events.any asksText = false → ∀ key keyId publicKey,
    Sealable w.env.sodium inv w.input.rest key keyId publicKey →
      ∃ ciphertext record, out.delivered = accepted w.out ++ record ∧ out.pending = [] ∧
        IsRecord inv keyId (encode true ciphertext) record ∧
        ∀ secretKey, keyPair publicKey secretKey →
          cryptoBoxSealOpen ciphertext publicKey secretKey = some (plaintextOf inv w.input.rest)

section Run
variable {inv : Invocation} {w : World} {keyPair : Bytes → Bytes → Prop}
  {cryptoBoxSealOpen : Bytes → Bytes → Bytes → Option Bytes}

theorem runEnds_served {w₀ w₁ : World} {positionals : List Bytes} {rc : SaltStatus}
    (h : RunEnds inv w₀ (startView w) positionals w.out rc w₁) (hstart : Starts inv w)
    (henv : w₀.env = w.env) (hfree : FaultFree w₀) (haccepts : w.out.Accepts)
    (hclear : w.out.errorFlag = false)
    (hnul : (optionState inv).keyFromStdin = true → 0 ∉ w.input.rest)
    (hworks : Works w.env.sodium keyPair cryptoBoxSealOpen) :
    (rc = .ok ↔ (∀ e ∈ inv.events, Valid e = true) ∧ (inv.events.any asksText = true ∨
      ∃ key keyId publicKey, Sealable w.env.sodium inv w.input.rest key keyId publicKey)) ∧
    (rc ≠ .ok → w₁.out = w.out) ∧
    ((∀ e ∈ inv.events, Valid e = true) → Served inv w keyPair cryptoBoxSealOpen w₁.out) := by
  cases hasks : inv.events.any asksText with
  | false =>
    have hd := runEnds_delivers h hstart henv hfree hasks haccepts hclear hnul hworks
    refine ⟨hd.ok_iff.trans ⟨fun hacc => ⟨?_, .inr hacc⟩, fun hacc => ?_⟩, hd.withheld, fun _ =>
      ⟨fun htrue => absurd (hasks.symm.trans htrue) (by decide), fun _ => hd.record⟩⟩
    · obtain ⟨_, _, _, hacc⟩ := hacc
      exact hacc.1.options
    · exact hacc.2.resolve_left (by decide)
  | true =>
    cases h with
    | misused event hmem hbad hm hout =>
      have hrc : rc ≠ .ok := by rcases hm.status with rfl | rfl <;> decide
      have hno : ¬ ∀ e ∈ inv.events, Valid e = true := fun hvalid =>
        absurd ((hvalid event hmem).symm.trans hbad) (by decide)
      exact ⟨⟨fun hok => absurd hok hrc, fun hvalid => absurd hvalid.1 hno⟩, fun _ => hout,
        fun hvalid => absurd hvalid hno⟩
    | informed hvalid _ hissued =>
      have hok := hissued.accepts haccepts hclear
      refine ⟨⟨fun _ => ⟨hvalid, .inl rfl⟩, fun _ => hok⟩, fun hne => absurd hok hne, fun _ =>
        ⟨fun _ => ?_, fun hfalse => absurd (hasks.symm.trans hfalse) (by decide)⟩⟩
      rw [← henv]
      exact hissued.whole hok
    | declined _ hnone _ _ _ => exact absurd (hasks.symm.trans hnone) (by decide)
    | recorded _ hnone _ _ _ _ _ _ _ => exact absurd (hasks.symm.trans hnone) (by decide)
    | refused _ hnone _ _ _ _ => exact absurd (hasks.symm.trans hnone) (by decide)

theorem installedRun_served (manageSignals : Bool) (hstart : Starts inv w)
    (hshape : saltCliHasValidArgvShape inv = true)
    (hinstalled : (installStage manageSignals (saltCliStateInit w).final).value = .ok)
    (hfree : FaultFree { w with interrupted := false }) (haccepts : w.out.Accepts)
    (hclear : w.out.errorFlag = false)
    (hnul : (optionState inv).keyFromStdin = true → 0 ∉ w.input.rest)
    (hworks : Works w.env.sodium keyPair cryptoBoxSealOpen) :
    Ends (saltCliRunWithStreamsInternal inv false manageSignals) w fun rc w' =>
      (rc = .ok ↔ (∀ e ∈ inv.events, Valid e = true) ∧ (inv.events.any asksText = true ∨
        ∃ key keyId publicKey, Sealable w.env.sodium inv w.input.rest key keyId publicKey)) ∧
      (rc ≠ .ok → w'.out = w.out) ∧
      ((∀ e ∈ inv.events, Valid e = true) → Served inv w keyPair cryptoBoxSealOpen w'.out) := by
  refine (saltCliRunWithStreamsInternal_ends false manageSignals hstart).mono fun rc w' hend => ?_
  rcases hend with ⟨hbad | hbad, -⟩ | ⟨-, -, w₁, hend, hclean⟩
  · exact absurd (hshape.symm.trans hbad) (by decide)
  · exact absurd hbad (by decide)
  rw [hclean.out]
  cases hend with
  | uninstalled hrc _ _ => exact absurd hinstalled hrc
  | ran hinstalled hrun =>
    have hreset := resetWorld_starts hstart hinstalled
    exact runEnds_served hrun hstart hreset.env (hreset.faultFree hfree) haccepts hclear hnul hworks

theorem run_served (hstart : Starts inv w) (hshape : saltCliHasValidArgvShape inv = true)
    (hfree : FaultFree { w with interrupted := false }) (haccepts : w.out.Accepts)
    (hclear : w.out.errorFlag = false)
    (hnul : (optionState inv).keyFromStdin = true → 0 ∉ w.input.rest)
    (hworks : Works w.env.sodium keyPair cryptoBoxSealOpen) :
    Ends (saltCliRunWithStreams inv false) w fun rc w' =>
      (rc = .ok ↔ (∀ e ∈ inv.events, Valid e = true) ∧ (inv.events.any asksText = true ∨
        ∃ key keyId publicKey, Sealable w.env.sodium inv w.input.rest key keyId publicKey)) ∧
      (rc ≠ .ok → w'.out = w.out) ∧
      ((∀ e ∈ inv.events, Valid e = true) → Served inv w keyPair cryptoBoxSealOpen w'.out) :=
  installedRun_served false hstart hshape rfl hfree haccepts hclear hnul hworks

theorem serves_iff (sodium : Sodium) (posixlyCorrect : Bool) (argc : ℤ)
    (argv : Option (List (Option CString))) (stdin : Bytes) :
    ((∀ e ∈ (ofArgv posixlyCorrect argc argv).events, Valid e = true) ∧
      ((ofArgv posixlyCorrect argc argv).events.any asksText = true ∨
        ∃ key keyId publicKey,
          Sealable sodium (ofArgv posixlyCorrect argc argv) stdin key keyId publicKey)) ↔
    Serves sodium posixlyCorrect argc argv stdin := by
  refine ⟨fun ⟨hvalid, hcan⟩ => ?_, fun ⟨options, operands, hspelled, hvalid, hcan⟩ => ?_⟩
  · have hspelled := spelled_of_events fun e he => settingOf_valid (hvalid e he)
    exact ⟨_, _, hspelled, hvalid, hcan⟩
  · rw [ofArgv_of_spelled hspelled]
    exact ⟨hvalid, hcan⟩

/-- A run without faults serves exactly the vectors that spell options and operands it can carry out,
and then puts out the text asked for or a record that opens to the plaintext; to any other vector it
gives an error and nothing on the output stream. -/
theorem saltCliRunWithStreams_serves (posixlyCorrect : Bool) (argc : ℤ)
    (argv : Option (List (Option CString))) (w : World)
    (hstart : Starts (ofArgv posixlyCorrect argc argv) w)
    (hshape : saltCliHasValidArgvShape (ofArgv posixlyCorrect argc argv) = true)
    (hfree : FaultFree { w with interrupted := false }) (haccepts : w.out.Accepts)
    (hclear : w.out.errorFlag = false)
    (hnul : (optionState (ofArgv posixlyCorrect argc argv)).keyFromStdin = true →
      0 ∉ w.input.rest)
    (keyPair : Bytes → Bytes → Prop) (cryptoBoxSealOpen : Bytes → Bytes → Bytes → Option Bytes)
    (hworks : Works w.env.sodium keyPair cryptoBoxSealOpen) :
    let r := saltCliRunWithStreams (ofArgv posixlyCorrect argc argv) false w
    (r.value = .ok ↔ Serves w.env.sodium posixlyCorrect argc argv w.input.rest) ∧
    (r.value ≠ .ok → r.final.out = w.out) ∧
    ∀ options operands, Spelled posixlyCorrect argc argv options operands →
      (∀ e ∈ options, Valid e = true) →
        Served ⟨argc, argv, options, operands⟩ w keyPair cryptoBoxSealOpen r.final.out := by
  intro r
  obtain ⟨hiff, hwithheld, hserved⟩ :=
    run_served hstart hshape hfree haccepts hclear hnul hworks
  refine ⟨hiff.trans (serves_iff ..), hwithheld, fun options operands hspelled hvalid => ?_⟩
  rw [ofArgv_of_spelled hspelled] at hserved
  exact ofArgv_of_spelled hspelled ▸ hserved hvalid

end Run

def servedWord : CString := ⟨[104, 105], by decide⟩

def servedArgv : List (Option CString) := sampleArgv programName servedWord sampleKeyText

theorem servedArgv_spelled :
    Spelled false 7 (some servedArgv) (sampleOptions sampleKeyText) [servedWord] :=
  sampleArgv_spelled programName servedWord sampleKeyText (by decide)

theorem servedArgv_acceptable : Acceptable
    ⟨7, some servedArgv, sampleOptions sampleKeyText, [servedWord]⟩ []
      sampleKeyText.bytes none sampleKey where
  options := by decide
  admissible :=
    { key := ⟨sampleKeyText, rfl, by decide⟩
      keyId := fun keyId h => by cases h
      positionals := by decide
      sources := by decide }
  keyLength := by decide
  keyText := .raw (by decide) (by decide) (by decide)
  publicKey := sampleKeyText_isKeyText
  nonempty := by decide
  plaintextLength := by decide
  record h := by cases h

theorem servedArgv_starts {w : World} (hpositionals : w.positionals = [servedWord.bytes])
    (hheap : w.heap = []) : Starts (ofArgv false 7 (some servedArgv)) w := by
  rw [ofArgv_of_spelled servedArgv_spelled]
  exact ⟨hpositionals, fun _ hb => absurd (hheap ▸ hb) List.not_mem_nil⟩

theorem servedArgv_serves : Serves referenceSodium false 7 (some servedArgv) [] :=
  ⟨_, _, servedArgv_spelled, by decide, .inr ⟨_, _, _, servedArgv_acceptable, sampleKey_seals _⟩⟩

theorem servedArgv_keyFromStdin :
    (optionState (ofArgv false 7 (some servedArgv))).keyFromStdin = false := by
  rw [ofArgv_of_spelled servedArgv_spelled]
  decide

theorem saltCliRunWithStreams_serves_sample :
    (saltCliRunWithStreams (ofArgv false 7 (some servedArgv)) false sampleWorld).value = .ok :=
  (saltCliRunWithStreams_serves false 7 _ sampleWorld (servedArgv_starts rfl rfl) (by decide)
    (freshWorld_faultFree _ _ _) (fun _ => ⟨0, rfl⟩) rfl
    (fun hstdin => absurd (servedArgv_keyFromStdin.symm.trans hstdin) (by decide)) _ _
    ⟨referenceSodium_follows, by decide, by simp [sampleWorld, freshWorld, calmEnv, referenceSodium],
      referenceSodium_inverts⟩).1.2 servedArgv_serves

end Salt.ArgvEndToEnd
