import Salt.KeyParsingCorrect

set_option autoImplicit false

/-!
# Which key texts are accepted

A key text is a JSON key object or raw text, by the requested format and its
first byte behind the leading white space.
-/
namespace Salt.KeyInputCorrect
open ByteStrings KeyParsing Trimming KeyGrammar KeyParsingCorrect

def firstByte (text : Bytes) : UInt8 := (text.dropWhile cliIsAsciiWs).headD 0

def readsAsJson (keyFormat : KeyFormat) (text : Bytes) : Bool :=
  saltCliShouldParseKeyAsJson keyFormat (firstByte text)

/-- The accepted key texts, with the key and key id they carry before trimming. -/
inductive KeyText (keyFormat : KeyFormat) (keySize : ℕ) (keyIdSize : Option ℕ) (text : Bytes) :
    Bytes → Option Bytes → Prop
  | raw (format : readsAsJson keyFormat text = false)
      (fits : (text.dropWhile cliIsAsciiWs).length < keySize) (not_blank : ¬ Blank text) :
      KeyText keyFormat keySize keyIdSize text text none
  | json {key : Bytes} {keyId : Option Bytes} (format : readsAsJson keyFormat text = true)
      (h : Accepts text keySize keyIdSize key keyId) :
      KeyText keyFormat keySize keyIdSize text key keyId

theorem dropWhile_quote {a : Bytes} (ha : Blank a) {c : UInt8} (hc : cliIsAsciiWs c = false)
    (s : Bytes) : (a ++ c :: s).dropWhile cliIsAsciiWs = c :: s := by
  rw [dropWhile_blank_append ha, List.dropWhile_cons_of_neg (by simp [hc])]

theorem keyObject_dropWhile_iff {json : Bytes} {ms : List (Bytes × Bytes)} :
    KeyObject (json.dropWhile cliIsAsciiWs) ms ↔ KeyObject json ms := by
  constructor
  · rintro ⟨a, s, b, hjson, ha, hms, hb⟩
    refine ⟨json.takeWhile cliIsAsciiWs ++ a, s, b, ?_, (blank_takeWhile json).append ha, hms, hb⟩
    rw [List.append_assoc, ← hjson, List.takeWhile_append_dropWhile]
  · rintro ⟨a, s, b, rfl, ha, hms, hb⟩
    exact ⟨[], s, b, dropWhile_quote ha (by decide) _, by simp [Blank], hms, hb⟩

theorem accepts_dropWhile_iff {json key : Bytes} {keySize : ℕ} {keyIdSize : Option ℕ}
    {keyId : Option Bytes} :
    Accepts (json.dropWhile cliIsAsciiWs) keySize keyIdSize key keyId ↔
      Accepts json keySize keyIdSize key keyId := by
  constructor <;> rintro ⟨⟨ms, hobj, hkm⟩, h₁, h₂, h₃⟩
  · exact ⟨⟨ms, keyObject_dropWhile_iff.1 hobj, hkm⟩, h₁, h₂, h₃⟩
  · exact ⟨⟨ms, keyObject_dropWhile_iff.2 hobj, hkm⟩, h₁, h₂, h₃⟩

theorem firstByte_append {a : Bytes} (ha : ¬ Blank a) (r : Bytes) :
    firstByte (a ++ r) = firstByte a := by
  have hne : a.dropWhile cliIsAsciiWs ≠ [] := fun h => ha (List.dropWhile_eq_nil_iff.1 h)
  unfold firstByte
  rw [List.dropWhile_append, if_neg (by simpa using hne)]
  obtain ⟨c, t, hc⟩ := List.exists_cons_of_ne_nil hne
  rw [hc]
  rfl

theorem firstByte_trim (text : Bytes) (h : ¬ Blank text) : firstByte (trim text) = firstByte text := by
  obtain ⟨t, ht⟩ := List.rdropWhile_prefix cliIsAsciiWs (text.dropWhile cliIsAsciiWs)
  have hne : ¬ Blank (trim text) := by
    rw [← trim_eq_nil_iff, trim_trim, trim_eq_nil_iff]
    exact h
  have hdrop : firstByte (text.dropWhile cliIsAsciiWs) = firstByte text := by
    rw [firstByte, List.dropWhile_idempotent, firstByte]
  rw [← hdrop, ← ht]
  exact (firstByte_append hne t).symm

theorem strlen_terminated {u : Bytes} (hu : 0 ∉ u) (rest : Bytes) :
    strlen (u ++ 0 :: rest) = some u.length := by
  induction u with
  | nil => rfl
  | cons c u ih =>
    simp only [List.mem_cons, not_or] at hu
    rw [List.cons_append, strlen, if_neg (Ne.symm hu.1), ih hu.2]
    rfl

theorem copyBytes_append (s p q rest : Bytes) (h : s.length ≤ q.length) :
    copyBytes (p ++ s ++ rest) (p ++ q) p.length s.length = some (p ++ overwrite q s) := by
  induction s generalizing p q with
  | nil => simp [copyBytes, overwrite]
  | cons c s ih =>
    rw [List.length_cons] at h
    have hread : (p ++ c :: s ++ rest)[p.length]? = some c := by simp
    have hnext := ih (p ++ [c]) (q.drop 1) (by rw [List.length_drop]; omega)
    rw [List.length_cons, copyBytes, hread]
    simp only [Option.bind_eq_bind, Option.bind_some, store_append p q c (by omega)]
    simpa [overwrite, Nat.add_comm] using hnext

theorem trim_dropWhile (text : Bytes) : trim (text.dropWhile cliIsAsciiWs) = trim text :=
  strip_dropWhile cliIsAsciiWs text

theorem blank_dropWhile_iff (text : Bytes) : Blank (text.dropWhile cliIsAsciiWs) ↔ Blank text := by
  rw [← trim_eq_nil_iff, ← trim_eq_nil_iff, trim_dropWhile]

theorem saltCliCopyBase64KeyInput_eq {u : Bytes} (hu : 0 ∉ u) (rest keyB64 : Bytes)
    (error : Option Bytes) : ∃ rc out error', saltCliCopyBase64KeyInput (u ++ 0 :: rest) keyB64
        error = some (rc, out, error') ∧ out.length = keyB64.length ∧
      error'.map List.length = error.map List.length ∧ (rc = .ok ∨ rc = .errInput) ∧
      (rc ≠ .ok → Reported error error') ∧ (rc = .ok ↔ u.length < keyB64.length ∧ ¬ Blank u) ∧
      (rc = .ok → error' = error ∧ ∃ tail, out = trim u ++ 0 :: tail) := by
  simp only [saltCliCopyBase64KeyInput, strlen_terminated hu, Option.bind_eq_bind, Option.bind_some]
  by_cases hfits : keyB64.length ≤ u.length
  · rw [if_pos hfits]
    refine ⟨_, _, _, rfl, rfl, setErrorBuffer_length _ _, by simp,
      fun _ => setErrorBuffer_reported _ (by decide), ?_, by simp⟩
    simp only [reduceCtorEq, false_iff, not_and]
    omega
  · have hlt : u.length < keyB64.length := by omega
    have hcopy := copyBytes_append (u ++ [0]) [] keyB64 rest (by simp; omega)
    have hwritten : overwrite keyB64 (u ++ [0]) = written u keyB64 := by
      simp [overwrite, written]
    rw [List.length_append, List.length_singleton, hwritten] at hcopy
    have hcopy' : copyBytes (u ++ 0 :: rest) keyB64 0 (u.length + 1) = some (written u keyB64) := by
      simpa using hcopy
    obtain ⟨tail, htail, hlen⟩ := trim_written hu hlt
    obtain ⟨c, hc, hc0⟩ := head_zero_iff (trim_noNul hu) tail
    rw [if_neg hfits]
    simp only [hcopy', htail, hc, Option.bind_some]
    by_cases hblank : Blank u
    · rw [if_pos (hc0.2 ((trim_eq_nil_iff u).2 hblank))]
      exact ⟨_, _, _, rfl, hlen, setErrorBuffer_length _ _, by simp,
        fun _ => setErrorBuffer_reported _ (by decide), by simp [hblank], by simp⟩
    · rw [if_neg fun h => hblank ((trim_eq_nil_iff u).1 (hc0.1 h))]
      exact ⟨_, _, _, rfl, hlen, rfl, by simp, by simp, by simp [hblank, hlt],
        fun _ => ⟨rfl, tail, rfl⟩⟩

theorem KeyText.noNul {keyFormat : KeyFormat} {keySize : ℕ} {keyIdSize : Option ℕ}
    {text key : Bytes} {keyId : Option Bytes} (h : KeyText keyFormat keySize keyIdSize text key keyId)
    (htext : 0 ∉ text) : 0 ∉ key := by
  cases h with
  | raw => exact htext
  | json _ hacc =>
    obtain ⟨⟨ms, ⟨a, s, b, -, -, hms, -⟩, hkm⟩, -⟩ := hacc
    exact (hkm.noNul hms).1

theorem KeyText.not_blank {keyFormat : KeyFormat} {keySize : ℕ} {keyIdSize : Option ℕ}
    {text key : Bytes} {keyId : Option Bytes}
    (h : KeyText keyFormat keySize keyIdSize text key keyId) : ¬ Blank text := by
  cases h with
  | raw _ _ hblank => exact hblank
  | json _ hacc =>
    obtain ⟨⟨ms, ⟨a, s, b, rfl, -⟩, -⟩, -⟩ := hacc
    exact fun hblank => absurd (hblank 123 (by simp)) (by decide)

/-- The key parser on a terminated text: total, and successful exactly on the key texts. -/
theorem saltCliParseKeyInput_eq {text : Bytes} (htext : 0 ∉ text) (rest : Bytes)
    (keyFormat : KeyFormat) {keyB64 : Bytes} (hsize : keyB64 ≠ []) (keyId error : Option Bytes)
    (flag : Bool) :
    ∃ rc out, saltCliParseKeyInput (some (text ++ 0 :: rest)) keyFormat
        ⟨some keyB64, keyId, some flag, error⟩ = some (rc, out) ∧
      SameOutSizes keyB64 keyId error out ∧ (rc = .ok ∨ rc = .errInput) ∧
      (rc ≠ .ok → Reported error out.error) ∧
      (rc = .ok →
        ∃ key id, KeyText keyFormat keyB64.length (keyId.map List.length) text key id) ∧
      ∀ key id, KeyText keyFormat keyB64.length (keyId.map List.length) text key id →
        rc = .ok ∧ Parsed keyB64 keyId error key id out := by
  have hlen : keyB64.length ≠ 0 := fun h => hsize (List.length_eq_zero_iff.1 h)
  have hv0 : 0 ∉ text.dropWhile cliIsAsciiWs := fun h =>
    htext ((List.dropWhile_sublist _).subset h)
  obtain ⟨w, hw⟩ : ∃ w, text.dropWhile cliIsAsciiWs ++ 0 :: rest = firstByte text :: w := by
    unfold firstByte
    cases text.dropWhile cliIsAsciiWs with
    | nil => exact ⟨rest, rfl⟩
    | cons c v => exact ⟨v ++ 0 :: rest, rfl⟩
  have hskip : jsonSkipWs (text ++ 0 :: rest) = some (firstByte text :: w) := by
    rw [jsonSkipWs_eq, hw]
  simp only [saltCliParseKeyInput, skipLeadingAsciiWs, if_neg hlen, hskip, Option.bind_eq_bind,
    Option.bind_some]
  cases hformat : readsAsJson keyFormat text with
  | false =>
    change saltCliShouldParseKeyAsJson keyFormat (firstByte text) = false at hformat
    obtain ⟨rc, out, error', hrun, hol, hel, hor, hrep, hiff, hok⟩ :=
      saltCliCopyBase64KeyInput_eq hv0 rest keyB64 error
    rw [hw] at hrun
    rw [blank_dropWhile_iff] at hiff
    simp only [hformat, Bool.not_false, if_true, hrun, Option.bind_some]
    refine ⟨_, _, rfl, ⟨congrArg some hol, clearKeyId_length _, hel⟩, hor, hrep,
      fun hrc => ?_, ?_⟩
    · obtain ⟨hfits, hblank⟩ := hiff.1 hrc
      exact ⟨text, none, .raw hformat hfits hblank⟩
    · rintro key id (⟨-, hfits, hblank⟩ | ⟨hjson, -⟩)
      · have hrc := hiff.2 ⟨hfits, hblank⟩
        obtain ⟨rfl, tail, rfl⟩ := hok hrc
        rw [trim_dropWhile] at hol ⊢
        refine ⟨hrc, ⟨tail, rfl, hol⟩, ?_, clearKeyId_length _, ?_, rfl⟩
        · rw [clearKeyId_cstr]
          simp [trim, strip_nil]
        · simp [trim, strip_nil]
      · exact absurd (hformat.symm.trans hjson) (by decide)
  | true =>
    change saltCliShouldParseKeyAsJson keyFormat (firstByte text) = true at hformat
    simp only [hformat, Bool.not_true, Bool.false_eq_true, if_false, ← hw]
    obtain ⟨rc, out, hrun, hsizes, hor, hrep, hsound, hcomplete⟩ :=
      saltCliParseKeyJsonObjectStrict_spec hv0 rest hsize (clearKeyId keyId) error false
    rw [clearKeyId_length] at hsound hcomplete
    refine ⟨rc, out, hrun, ?_, hor, hrep, fun hrc => ?_, ?_⟩
    · exact ⟨hsizes.keyB64, hsizes.keyId.trans (clearKeyId_length _), hsizes.error⟩
    · obtain ⟨key, id, h⟩ := hsound hrc
      exact ⟨key, id, .json hformat (accepts_dropWhile_iff.1 h)⟩
    · rintro key id (⟨hraw, -, -⟩ | ⟨-, h⟩)
      · exact absurd (hraw.symm.trans hformat) (by decide)
      · obtain ⟨hrc, hparsed⟩ := hcomplete key id (accepts_dropWhile_iff.2 h)
        refine ⟨hrc, hparsed.keyB64, ?_, ?_, hparsed.hasKeyId, hparsed.error⟩
        · rw [hparsed.keyId_cstr]
          cases keyId <;> rfl
        · rw [hparsed.keyId_length, clearKeyId_length]

end Salt.KeyInputCorrect
