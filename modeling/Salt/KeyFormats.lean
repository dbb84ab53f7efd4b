import Salt.KeyInputCorrect
import Salt.SealingCorrect

set_option autoImplicit false

/-!
# One text, one key

The three key formats read the same text in at most one way, because a brace
opens every key object and no base64 text.
-/
namespace Salt.KeyFormats
open ByteStrings Base64Text KeyParsing Trimming KeyGrammar KeyParsingCorrect KeyInputCorrect
  Sealing SealingCorrect

structure CliBuffers (keyB64 keyId error : Bytes) : Prop where
  keyB64 : keyB64.length = saltMaxKeyInputLen + 1
  keyId : keyId.length = saltMaxKeyIdLen + 1
  error : error.length = errorSize

def extractedId (out : KeyOut) : Option Bytes :=
  if out.hasKeyId = some true then out.keyId.map cstr else none

/-- Format `f` reads the key `K` and the key id `I` from the text. -/
def Yields (W : SizeWidth) (sodium : Sodium) (f : KeyFormat) (text : CString) (K : Bytes)
    (I : Option Bytes) : Prop :=
  ∃ keyB64 keyId error flag out scratch, CliBuffers keyB64 keyId error ∧
    scratch.length = cryptoBoxPublicKeyBytes ∧
    saltCliParseKeyInput (some text.memory) f ⟨some keyB64, some keyId, some flag, some error⟩ =
      some (.ok, out) ∧
    decodePublicKey W sodium (cstr (out.keyB64.getD [])) scratch = (true, K) ∧ extractedId out = I

def Reads (f : KeyFormat) (text K : Bytes) (I : Option Bytes) : Prop :=
  ∃ key id, KeyText f (saltMaxKeyInputLen + 1) (some (saltMaxKeyIdLen + 1)) text key id ∧
    IsKeyText (trim key) K ∧ I = if trim (id.getD []) = [] then none else some (trim (id.getD []))

section Formats
variable {W : SizeWidth} {sodium : Sodium} {text : CString} {K : Bytes} {I : Option Bytes}

theorem extractedId_eq {keyB64 keyId error key : Bytes} {id : Option Bytes} {out : KeyOut}
    (h : Parsed keyB64 (some keyId) (some error) key id out) : extractedId out =
      if trim (id.getD []) = [] then none else some (trim (id.getD [])) := by
  rw [extractedId, h.hasKeyId, h.keyId_cstr]
  by_cases hid : trim (id.getD []) = []
  · simp [hid]
  · simp [hid]

theorem yields_iff (h : FollowsLibsodium sodium) (f : KeyFormat) :
    Yields W sodium f text K I ↔ Reads f text.bytes K I := by
  have hrun {keyB64 keyId error : Bytes} (hb : CliBuffers keyB64 keyId error) (flag : Bool) :=
    have hsize : keyB64 ≠ [] := List.length_pos_iff.1 (by rw [hb.keyB64]; decide)
    saltCliParseKeyInput_eq text.noNul [] f hsize (some keyId) (some error) flag
  constructor
  · rintro ⟨keyB64, keyId, error, flag, out, scratch, hb, hlen, hparse, hdecode, rfl⟩
    obtain ⟨rc, out', hrun, -, -, -, hsound, hcomplete⟩ := hrun hb flag
    obtain ⟨rfl, rfl⟩ : rc = .ok ∧ out' = out := by
      simpa using hrun.symm.trans hparse
    obtain ⟨key, id, hkey⟩ := hsound rfl
    obtain ⟨-, hparsed⟩ := hcomplete key id hkey
    obtain ⟨tail, hout, -⟩ := hparsed.keyB64
    rw [hb.keyB64, Option.map_some, hb.keyId] at hkey
    rw [hout, Option.getD_some, cstr_append_zero (trim_noNul (hkey.noNul text.noNul)),
      decodePublicKey_iff h _ hlen] at hdecode
    exact ⟨key, id, hkey, hdecode, extractedId_eq hparsed⟩
  · rintro ⟨key, id, hkey, hdecode, rfl⟩
    obtain ⟨keyB64, keyId, error, hb⟩ : ∃ keyB64 keyId error, CliBuffers keyB64 keyId error :=
      ⟨List.replicate _ 0, List.replicate _ 0, List.replicate _ 0, List.length_replicate,
        List.length_replicate, List.length_replicate⟩
    obtain ⟨rc, out, hrun, -, -, -, -, hcomplete⟩ := hrun hb false
    rw [hb.keyB64, Option.map_some, hb.keyId] at hcomplete
    obtain ⟨rfl, hparsed⟩ := hcomplete key id hkey
    obtain ⟨tail, hout, -⟩ := hparsed.keyB64
    refine ⟨keyB64, keyId, error, false, out, List.replicate cryptoBoxPublicKeyBytes 0, hb,
      List.length_replicate, hrun, ?_, extractedId_eq hparsed⟩
    rw [hout, Option.getD_some, cstr_append_zero (trim_noNul (hkey.noNul text.noNul)),
      decodePublicKey_iff h _ List.length_replicate]
    exact hdecode

theorem firstByte_of_accepts {text key : Bytes} {keySize : ℕ} {keyIdSize : Option ℕ}
    {id : Option Bytes} (h : Accepts text keySize keyIdSize key id) : firstByte text = 123 := by
  obtain ⟨⟨ms, ⟨a, s, b, rfl, ha, -, -⟩, -⟩, -⟩ := h
  rw [firstByte, dropWhile_quote ha (by decide)]
  rfl

theorem firstByte_of_keyText {text : Bytes} (h : IsKeyText (trim text) K) :
    firstByte text ≠ 123 := by
  intro hfirst
  have hmem : 123 ∈ trim text := by
    have hblank : ¬ Blank text := by
      rw [← trim_eq_nil_iff]
      intro hnil
      have := h.length
      rw [hnil] at this
      simp at this
    rw [← firstByte_trim text hblank, firstByte] at hfirst
    cases hdrop : (trim text).dropWhile cliIsAsciiWs with
    | nil => simp [hdrop] at hfirst
    | cons c rest =>
      rw [hdrop, List.headD_cons] at hfirst
      exact (List.dropWhile_sublist cliIsAsciiWs).subset (by rw [hdrop, hfirst]; simp)
  obtain ⟨-, heq | heq⟩ := h
  · rw [heq] at hmem
    exact absurd (encode_ascii _ _ _ hmem).2 (by decide)
  · rw [heq] at hmem
    exact absurd (encode_ascii _ _ _ hmem).2 (by decide)

theorem readsAsJson_base64 (text : Bytes) : readsAsJson .base64 text = false := rfl

theorem readsAsJson_json (text : Bytes) : readsAsJson .json text = true := rfl

theorem readsAsJson_auto (text : Bytes) : readsAsJson .auto text = decide (firstByte text = 123) :=
  Bool.false_or _

theorem Reads.format {f g : KeyFormat} {text K : Bytes} {I : Option Bytes}
    (h : Reads f text K I) (hformat : readsAsJson g text = readsAsJson f text) :
    Reads g text K I := by
  obtain ⟨key, id, hkey, hdecode, hid⟩ := h
  refine ⟨key, id, ?_, hdecode, hid⟩
  cases hkey with
  | raw format fits not_blank => exact .raw (hformat.trans format) fits not_blank
  | json format h => exact .json (hformat.trans format) h

theorem Reads.firstByte_iff {f : KeyFormat} {text K : Bytes} {I : Option Bytes}
    (h : Reads f text K I) : readsAsJson f text = true ↔ firstByte text = 123 := by
  obtain ⟨key, id, hkey, hdecode, -⟩ := h
  cases hkey with
  | raw format fits not_blank =>
    exact iff_of_false (by simp [format]) (firstByte_of_keyText hdecode)
  | json format h => exact iff_of_true format (firstByte_of_accepts h)

/-- Two readings of a text are never of different formats, and `auto` takes either. -/
theorem keyFormats_unambiguous (W : SizeWidth) (sodium : Sodium) (h : FollowsLibsodium sodium)
    (text : CString) :
    (∀ K I K' I', Yields W sodium .base64 text K I → ¬ Yields W sodium .json text K' I') ∧
    ∀ K I, Yields W sodium .auto text K I ↔
      Yields W sodium .base64 text K I ∨ Yields W sodium .json text K I := by
  simp only [yields_iff h]
  refine ⟨fun K I K' I' hraw hjson => ?_, fun K I => ⟨fun hauto => ?_, fun heither => ?_⟩⟩
  · have hfirst := hjson.firstByte_iff.1 (readsAsJson_json _)
    exact Bool.noConfusion ((readsAsJson_base64 _).symm.trans (hraw.firstByte_iff.2 hfirst))
  · cases hformat : readsAsJson .auto text.bytes with
    | false => exact .inl (hauto.format ((readsAsJson_base64 _).trans hformat.symm))
    | true => exact .inr (hauto.format ((readsAsJson_json _).trans hformat.symm))
  · rcases heither with hraw | hjson
    · refine hraw.format ?_
      rw [readsAsJson_auto, readsAsJson_base64, decide_eq_false_iff_not]
      exact fun hfirst => Bool.noConfusion (hraw.firstByte_iff.2 hfirst)
    · refine hjson.format ?_
      rw [readsAsJson_auto, readsAsJson_json, decide_eq_true_iff]
      exact hjson.firstByte_iff.1 (readsAsJson_json _)

theorem keyFormats_unambiguous_sample :
    Yields .w64 referenceSodium .auto sampleKeyText sampleKey none := by
  have htrim : trim sampleKeyText.bytes = sampleKeyText.bytes := by decide
  have hbase64 : Reads .base64 sampleKeyText.bytes sampleKey none :=
    ⟨sampleKeyText.bytes, none, .raw rfl (by decide) (by decide),
      by rw [htrim]; exact sampleKeyText_isKeyText, rfl⟩
  exact ((keyFormats_unambiguous .w64 referenceSodium referenceSodium_follows sampleKeyText).2 _ _).2
    (.inl ((yields_iff referenceSodium_follows _).2 hbase64))

end Formats

end Salt.KeyFormats
