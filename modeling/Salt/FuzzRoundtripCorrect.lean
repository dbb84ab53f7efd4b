import Salt.FuzzRoundtrip
import Salt.RoundtripHelperCorrect
import Mathlib.Data.List.GetD

set_option autoImplicit false

/-!
# The one way the differential harness can stop

Over a libsodium that does what it promises, the harness stops the process
only for an altered ciphertext that opens.
-/
namespace Salt.FuzzRoundtripCorrect
open ByteStrings Base64Text Sealing SealingCorrect RoundtripHelperCorrect FuzzRoundtrip

/-- The ciphertext with the top six bits of its first byte replaced. -/
def tampered : Bytes → Bytes
  | [] => []
  | a :: rest => UInt8.ofNat ((if a.toNat / 4 = 0 then 1 else 0) * 4 + a.toNat % 4) :: rest

theorem tampered_length (s : Bytes) : (tampered s).length = s.length := by
  cases s <;> rfl

/-- The first group is the top of the first byte; the other groups do not see it. -/
theorem encodeValues_cons (a : UInt8) (rest : Bytes) : ∃ vs, ∀ b : UInt8,
    b.toNat % 4 = a.toNat % 4 → encodeValues (b :: rest) = b.toNat / 4 :: vs := by
  match rest with
  | [] => exact ⟨_, fun b h => by rw [encodeValues, h]⟩
  | [_] => exact ⟨_, fun b h => by rw [encodeValues, h]⟩
  | _ :: _ :: _ => exact ⟨_, fun b h => by rw [encodeValues, h]⟩

theorem valueChar_ne_pad {v : ℕ} (h : v < 64) : valueChar v ≠ 61 := fun hpad => by
  have := charValue_valueChar h
  rw [hpad, show charValue 61 = none from rfl] at this
  cases this

theorem flip_valueChar {v : ℕ} (h : v < 64) :
    roundtripFlipBase64Char (valueChar v) = valueChar (if v = 0 then 1 else 0) := by
  have hzero : valueChar v = 65 ↔ v = 0 := by
    constructor
    · intro h65
      have := charValue_valueChar h
      rw [h65] at this
      exact (Option.some.inj this).symm
    · rintro rfl
      rfl
  unfold roundtripFlipBase64Char
  by_cases hv : v = 0
  · rw [if_neg (fun hne => hne.1 (hzero.2 hv)), if_pos hv]
    rfl
  · rw [if_pos ⟨fun h65 => hv (hzero.1 h65), valueChar_ne_pad h⟩, if_neg hv]
    rfl

theorem encode_tampered {s : Bytes} (h : s ≠ []) :
    encode true (tampered s) = flipFirst (encode true s) := by
  obtain ⟨a, rest, rfl⟩ := List.exists_cons_of_ne_nil h
  obtain ⟨vs, hvs⟩ := encodeValues_cons a rest
  have ha := a.toNat_lt
  have htop : (if a.toNat / 4 = 0 then 1 else 0) ≤ 1 := by split_ifs <;> omega
  have hbyte : (UInt8.ofNat ((if a.toNat / 4 = 0 then 1 else 0) * 4 + a.toNat % 4)).toNat =
      (if a.toNat / 4 = 0 then 1 else 0) * 4 + a.toNat % 4 := by
    rw [UInt8.toNat_ofNat']
    omega
  have hgroup : a.toNat / 4 < 64 := by omega
  have htampered := hvs (UInt8.ofNat ((if a.toNat / 4 = 0 then 1 else 0) * 4 + a.toNat % 4))
    (by omega)
  rw [show (UInt8.ofNat ((if a.toNat / 4 = 0 then 1 else 0) * 4 + a.toNat % 4)).toNat / 4 =
    if a.toNat / 4 = 0 then 1 else 0 by omega] at htampered
  simp only [encode, tampered, htampered, hvs a rfl, if_true, List.map_cons, List.cons_append,
    List.length_cons, List.length_map]
  rw [flipFirst, if_pos (valueChar_ne_pad hgroup), flip_valueChar hgroup]

theorem rdropWhile_encode (s : Bytes) :
    (encode true s).rdropWhile (· = 61) = encode false s := by
  have hpad : ∀ c ∈ (padding ((encodeValues s).map valueChar).length).reverse,
      decide (c = 61) = true := by
    intro c hc
    rw [decide_eq_true_eq]
    exact (List.mem_replicate.1 (List.mem_reverse.1 hc)).2
  have hlast : ∀ c ∈ ((encodeValues s).map valueChar).reverse, ¬ c = 61 := by
    intro c hc
    obtain ⟨v, hv, rfl⟩ := List.mem_map.1 (List.mem_reverse.1 hc)
    exact valueChar_ne_pad (encodeValues_lt s v hv)
  rw [encode, encode, if_pos rfl, if_neg Bool.false_ne_true, List.append_nil, List.rdropWhile,
    List.reverse_append, List.dropWhile_append_of_pos hpad,
    ← List.reverse_reverse ((encodeValues s).map valueChar)]
  generalize ((encodeValues s).map valueChar).reverse = cs at hlast
  cases cs with
  | nil => rfl
  | cons c cs =>
    rw [List.reverse_reverse, List.dropWhile_cons_of_neg (by simpa using hlast c List.mem_cons_self)]

/-- What the harness expects of a key is what the library makes of it. -/
structure KeyExpected (mode : UInt8) (publicKey : Bytes) (r : Bool × CString) : Prop where
  accepted : r.1 = true ↔ mode.toNat % 6 < 2
  keyText : r.1 = true → IsKeyText r.2.bytes publicKey
  noKeyText : r.1 = false → ∀ key, ¬ IsKeyText r.2.bytes key

section Key
variable {mode : UInt8} {publicKey : Bytes} {base key : CString} {dstSize : ℕ}

theorem KeyExpected.text (hmode : mode.toNat % 6 < 2) (h : IsKeyText key.bytes publicKey) :
    KeyExpected mode publicKey (true, key) where
  accepted := iff_of_true rfl hmode
  keyText _ := h
  noKeyText hfalse := nomatch hfalse

theorem KeyExpected.other (hmode : 2 ≤ mode.toNat % 6)
    (h : key.bytes.length ≠ 44 ∧ key.bytes.length ≠ 43) :
    KeyExpected mode publicKey (false, key) where
  accepted := iff_of_false Bool.false_ne_true (Nat.not_lt.2 hmode)
  keyText htrue := nomatch htrue
  noKeyText _ _ hkey := hkey.length.elim h.1 h.2

theorem keyVariant_expected (hpublic : publicKey.length = cryptoBoxPublicKeyBytes)
    (hbase : base.bytes = encode true publicKey) (hsize : 47 ≤ dstSize) (mode : UInt8)
    (old : CString) : KeyExpected mode publicKey (roundtripBuildKeyVariant mode base old dstSize) := by
  have hlen : base.bytes.length = 44 := by
    rw [hbase, encode_length_padded, hpublic]
    rfl
  have hbuffer {text : Bytes} (h : 0 ∉ text) : (CString.ofBuffer text).bytes = text :=
    cstr_of_noNul h
  have hnul : 0 ∉ base.bytes := base.noNul
  unfold roundtripBuildKeyVariant
  split
  · next hmode =>
    rw [if_neg (by omega)]
    exact .text (by omega) ⟨hpublic, .inl hbase⟩
  · next hmode =>
    have htrim : base.bytes.rdropWhile (· = 61) = encode false publicKey := by
      rw [hbase, rdropWhile_encode]
    have hshort : (encode false publicKey).length = 43 := by
      rw [encode_length_unpadded, hpublic]
      rfl
    have hne : encode false publicKey ≠ [] := List.ne_nil_of_length_pos (by omega)
    simp only [htrim]
    rw [if_neg (not_or.2 ⟨hne, by omega⟩)]
    exact .text (by omega) ⟨hpublic, .inr (hbuffer (text_noNul false publicKey))⟩
  · next hmode => exact .other (by omega) (by decide)
  · next hmode =>
    rw [if_neg (by omega), if_neg (by omega)]
    refine .other (by omega) ?_
    rw [hbuffer fun h => hnul (List.mem_of_mem_take h), List.length_take]
    omega
  · next hmode =>
    rw [if_neg (by omega)]
    refine .other (by omega) ?_
    rw [hbuffer (by simpa [ascii] using hnul), List.length_append, hlen]
    decide
  · next h0 h1 _ _ _ =>
    have h0 : mode.toNat % 6 ≠ 0 := h0
    have h1 : mode.toNat % 6 ≠ 1 := h1
    rw [if_neg (by omega)]
    refine .other (by omega) ?_
    rw [hbuffer (by simpa [ascii] using hnul), List.length_append, List.length_append, hlen]
    decide

end Key

theorem fillBytes_length (n : ℕ) (seed : Bytes) : (roundtripFillBytes n seed).length = n := by
  unfold roundtripFillBytes
  split_ifs
  · exact List.length_replicate
  · rw [List.length_map, List.length_range]

theorem presets_le : ∀ n ∈ presets, n ≤ roundtripMaxPlaintext := by decide

theorem preset_le (i : ℕ) : presets.getD i 0 ≤ roundtripMaxPlaintext := by
  by_cases h : i < presets.length
  · rw [← List.getElem_eq_getD 0 (h := h)]
    exact presets_le _ (List.getElem_mem h)
  · rw [List.getD_eq_default _ _ (Nat.not_lt.1 h)]
    exact Nat.zero_le _

theorem selectPlaintextLen_le (mode : UInt8) (seed : Bytes) :
    roundtripSelectPlaintextLen mode seed ≤ roundtripMaxPlaintext := by
  unfold roundtripSelectPlaintextLen
  split
  · split_ifs with h
    · exact h
    · exact le_rfl
  · split_ifs
    · exact preset_le _
    · exact preset_le _
  · exact Nat.le_of_lt_succ (Nat.mod_lt _ (Nat.succ_pos _))
  · exact le_rfl

theorem maxPlaintext_le : roundtripMaxPlaintext ≤ saltMaxMessageLen := by decide

theorem maxB64_eq (W : SizeWidth) : roundtripMaxB64 W = 65601 := by cases W <;> rfl

theorem selectOutputSize_le (W : SizeWidth) {n : ℕ} (h : n ≤ roundtripMaxPlaintext) (mode : UInt8) :
    roundtripSelectOutputSize W mode (saltRequiredBase64OutputLen W n) ≤ roundtripMaxB64 W := by
  have hn : n ≤ 49152 := h
  have hseal : cryptoBoxSealBytes = 48 := rfl
  have hreq := (saltRequiredBase64OutputLen_eq W (h.trans maxPlaintext_le)).1
  rw [maxB64_eq]
  unfold roundtripSelectOutputSize
  split
  · omega
  · exact (maxB64_eq W).le
  · split_ifs <;> omega
  · omega

section Verdict
variable {env : FuzzEnv} {keyPair : Bytes → Bytes → Prop} {publicKey secretKey : Bytes}

theorem decodeWhole_encode (hf : FollowsLibsodium env.sodium) {c : Bytes} {n : ℕ}
    (h : c.length ≤ n) : decodeWhole env.sodium n (encode true c) = some c := by
  unfold decodeWhole
  rw [decode_encoded hf h]
  simp

theorem decodeWhole_none (hf : FollowsLibsodium env.sodium) {text : Bytes} (n : ℕ)
    (h : ∀ c, text ≠ encode true c) : decodeWhole env.sodium n text = none := by
  unfold decodeWhole
  exact if_neg fun ⟨hret, hstop⟩ => by
    obtain ⟨c, hc, -⟩ := encoded_of_decode hf hret hstop
    exact h c hc

theorem dropLast_ne_encode {s : Bytes} (h : s ≠ []) (c : Bytes) :
    (encode true s).dropLast ≠ encode true c := fun heq => by
  have hlen := congrArg List.length heq
  have hpos : 0 < s.length := List.length_pos_iff.2 h
  rw [List.length_dropLast, encode_length_padded, encode_length_padded] at hlen
  omega

theorem junk_ne_encode (s c : Bytes) : encode true s ++ ascii "!" ≠ encode true c := fun heq => by
  have hmem : (33 : UInt8) ∈ encode true s ++ ascii "!" :=
    List.mem_append_right _ (by decide)
  rw [heq] at hmem
  exact absurd (encode_ascii true c 33 hmem).1 (by decide)

def corruptionReport : Bytes :=
  ascii "roundtrip: corrupted ciphertext variant decrypted unexpectedly\n"

/-- Of the variants of a good text only the altered one can be opened again. -/
theorem expectedSuccess_eq (hf : FollowsLibsodium env.sodium) {ciphertext plaintext more : Bytes}
    (hlen : ciphertext.length = plaintext.length + cryptoBoxSealBytes)
    (hmax : plaintext.length ≤ roundtripMaxPlaintext)
    (hopen : env.cryptoBoxSealOpen ciphertext publicKey secretKey = some plaintext)
    {tc : RoundtripCase} (htc : tc.plaintextLen = plaintext.length) {r : SealResult}
    (hok : r.status = .ok) (hout : r.output = some (encode true ciphertext ++ 0 :: more))
    (hwritten : r.outputWritten = some (encode true ciphertext).length)
    (hcap : (encode true ciphertext).length < tc.outputSize) :
    roundtripAssertExpectedSuccess env publicKey secretKey tc r plaintext =
      if tc.ciphertextMode.toNat % 4 = 3 ∧
          (env.cryptoBoxSealOpen (tampered ciphertext) publicKey secretKey).isSome = true then
        .aborted corruptionReport
      else .finished := by
  have hseal : cryptoBoxSealBytes = 48 := rfl
  have hplain : plaintext.length ≤ 49152 := hmax
  have hb64 := maxB64_eq env.width
  have hcode := encode_length_padded ciphertext
  have hne : ciphertext ≠ [] := List.ne_nil_of_length_pos (by omega)
  have hcipher : ciphertext.length ≤ roundtripMaxCiphertext := by
    rw [hlen]
    exact Nat.add_le_add_right hmax _
  have htext : (r.output.getD []).take (r.outputWritten.getD 0) = encode true ciphertext := by
    rw [hout, hwritten, Option.getD_some, Option.getD_some, List.take_left]
  unfold roundtripAssertExpectedSuccess
  simp only [htext]
  rw [hwritten, Option.getD_some, if_neg (not_not.2 hok), if_neg (by omega)]
  unfold roundtripBuildCiphertextVariant
  rw [if_neg (by omega)]
  obtain hmode | hmode | hmode | hmode : tc.ciphertextMode.toNat % 4 = 0 ∨
      tc.ciphertextMode.toNat % 4 = 1 ∨ tc.ciphertextMode.toNat % 4 = 2 ∨
      tc.ciphertextMode.toNat % 4 = 3 := by omega
  · simp only [hmode, if_true, roundtripVerifySuccess, decodeWhole_encode hf hcipher, hopen]
    rw [if_neg (not_not.2 hlen), if_neg (not_not.2 List.take_length), if_neg (by omega)]
  · have hcut : decodeWhole env.sodium roundtripMaxCiphertext (encode true ciphertext).dropLast =
        none := decodeWhole_none hf _ (dropLast_ne_encode hne)
    simp only [hmode, roundtripVerifyNegativeVariant]
    rw [if_neg (by decide), if_pos (by omega), hcut, if_neg (by omega)]
  · have hjunk : decodeWhole env.sodium roundtripMaxCiphertext (encode true ciphertext ++ ascii "!") =
        none := decodeWhole_none hf _ (junk_ne_encode ciphertext)
    simp only [hmode, roundtripVerifyNegativeVariant, hjunk]
    rw [if_neg (by decide), if_neg (by omega)]
  · have haltered : decodeWhole env.sodium roundtripMaxCiphertext
        (flipFirst (encode true ciphertext)) = some (tampered ciphertext) := by
      rw [← encode_tampered hne]
      exact decodeWhole_encode hf (by rw [tampered_length]; exact hcipher)
    simp only [hmode, roundtripVerifyNegativeVariant, haltered, tampered_length, htc, hlen]
    cases env.cryptoBoxSealOpen (tampered ciphertext) publicKey secretKey with
    | none => simp
    | some altered => simp [corruptionReport]

end Verdict

/-- What the harness takes for a call that has to succeed. -/
structure MustSeal (tc : RoundtripCase) : Prop where
  plaintext : 0 < tc.plaintextLen
  key : tc.keyMode.toNat % 6 < 2
  output : tc.requiredOutput ≤ tc.outputSize

instance (tc : RoundtripCase) : Decidable (MustSeal tc) :=
  decidable_of_iff (0 < tc.plaintextLen ∧ tc.keyMode.toNat % 6 < 2 ∧
    tc.requiredOutput ≤ tc.outputSize) ⟨fun h => ⟨h.1, h.2.1, h.2.2⟩, fun h => ⟨h.1, h.2, h.3⟩⟩

section Input
variable {env : FuzzEnv} {keyPair : Bytes → Bytes → Prop} {publicKey secretKey : Bytes}

theorem publicKeyB64Size_eq (W : SizeWidth) : publicKeyB64Size W = 45 := by cases W <;> rfl

theorem roundtripInit_eq (hf : FollowsLibsodium env.sodium) (hinit : 0 ≤ env.sodium.init)
    (hseed : fuzzSeedKeypair env 0x45 = (0, publicKey, secretKey))
    (hpublic : publicKey.length = cryptoBoxPublicKeyBytes) :
    ∃ text : CString, text.bytes = encode true publicKey ∧
      roundtripInit env = some (publicKey, secretKey, text) := by
  have hroom : (encode true publicKey).length < publicKeyB64Size env.width := by
    rw [publicKeyB64Size_eq, encode_length_padded, hpublic]
    decide
  obtain ⟨more, text, hrun, htext⟩ := hf.encode_ok _ _ hroom
  refine ⟨text, htext, ?_⟩
  unfold roundtripInit
  rw [if_neg (Int.not_lt.2 hinit), hseed]
  simp [hrun]

theorem sealCase_eq (tc : RoundtripCase) (key : CString) :
    sealCase env tc key = saltSealBase64Keylen env.width env.sodium
      (some (roundtripFillBytes tc.plaintextLen tc.payload)) (some key.bytes)
      (some ((fresh env.encryptedB64 tc.outputSize).set 0 0)) (some 0)
      (some (List.replicate roundtripErrBuf 0)) :=
  measured_key env.width env.sodium _ _ (some key) _ _

theorem sealArguments_iff {data : Bytes} {keyMode : UInt8} {key : Bool × CString}
    (hkey : KeyExpected keyMode publicKey key)
    (hmode : (roundtripParseCase env.width data).keyMode = keyMode) :
    let tc := roundtripParseCase env.width data
    SealArguments env.width (roundtripFillBytes tc.plaintextLen tc.payload) key.2.bytes
        ((fresh env.encryptedB64 tc.outputSize).set 0 0) ↔ MustSeal tc := by
  intro tc
  have hmax : tc.plaintextLen ≤ saltMaxMessageLen :=
    (selectPlaintextLen_le _ _).trans maxPlaintext_le
  unfold SealArguments
  rw [fillBytes_length, List.length_set, fresh_length]
  constructor
  · rintro ⟨hpos, -, ⟨publicKey', htext⟩, hroom⟩
    refine ⟨hpos, ?_, hroom⟩
    rw [hmode, ← hkey.accepted]
    by_contra hno
    exact hkey.noKeyText (Bool.eq_false_iff.2 hno) publicKey' htext
  · rintro ⟨hpos, hvalid, hroom⟩
    rw [hmode, ← hkey.accepted] at hvalid
    exact ⟨hpos, hmax, ⟨publicKey, hkey.keyText hvalid⟩, hroom⟩

theorem expectSuccess_iff {data : Bytes} {key : Bool × CString}
    (hkey : KeyExpected (roundtripParseCase env.width data).keyMode publicKey key) :
    expectSuccess (roundtripParseCase env.width data) key.1 = true ↔
      MustSeal (roundtripParseCase env.width data) := by
  have hreq := (saltRequiredBase64OutputLen_eq env.width ((selectPlaintextLen_le
    (roundtripParseCase env.width data).plaintextMode
    (roundtripParseCase env.width data).payload).trans maxPlaintext_le)).1
  have hne : (roundtripParseCase env.width data).requiredOutput ≠ 0 := fun h =>
    Nat.succ_ne_zero _ (hreq.symm.trans h)
  simp only [expectSuccess, Bool.and_eq_true, decide_eq_true_eq, hkey.accepted]
  exact ⟨fun ⟨⟨⟨hpos, hvalid⟩, _⟩, hroom⟩ => ⟨hpos, hvalid, hroom⟩,
    fun ⟨hpos, hvalid, hroom⟩ => ⟨⟨⟨hpos, hvalid⟩, hne⟩, hroom⟩⟩

end Input

/-- Whatever bytes the harness is given, it keeps to its own buffers, and it stops the process just
when the call has to succeed, the text is to be altered, and the altered ciphertext opens. -/
theorem fuzzOneInput_eq (env : FuzzEnv) (keyPair : Bytes → Bytes → Prop)
    (hf : FollowsLibsodium env.sodium) (hinit : 0 ≤ env.sodium.init)
    (halloc : env.sodium.alloc ≠ none)
    (hbox : BoxSealInverts env.sodium keyPair env.cryptoBoxSealOpen)
    (publicKey secretKey : Bytes) (hseed : fuzzSeedKeypair env 0x45 = (0, publicKey, secretKey))
    (hpublic : publicKey.length = cryptoBoxPublicKeyBytes) (hkeys : keyPair publicKey secretKey)
    (data : Bytes) (hseals : MustSeal (roundtripParseCase env.width data) →
      Seals env.sodium (roundtripFillBytes (roundtripParseCase env.width data).plaintextLen
        (roundtripParseCase env.width data).payload) publicKey) :
    let tc := roundtripParseCase env.width data
    let plaintext := roundtripFillBytes tc.plaintextLen tc.payload
    let ciphertext := (env.sodium.cryptoBoxSeal plaintext publicKey).2
    tc.plaintextLen ≤ roundtripMaxPlaintext ∧ tc.outputSize ≤ roundtripMaxB64 env.width ∧
    fuzzOneInput env data =
      if MustSeal tc ∧ tc.ciphertextMode.toNat % 4 = 3 ∧
          (env.cryptoBoxSealOpen (tampered ciphertext) publicKey secretKey).isSome = true then
        .aborted corruptionReport
      else .finished := by
  intro tc plaintext ciphertext
  have hmax : tc.plaintextLen ≤ roundtripMaxPlaintext := selectPlaintextLen_le _ _
  refine ⟨hmax, selectOutputSize_le _ hmax _, ?_⟩
  obtain ⟨text, htext, hready⟩ := roundtripInit_eq hf hinit hseed hpublic
  have hkey : KeyExpected tc.keyMode publicKey (roundtripBuildKeyVariant tc.keyMode text
      env.keyVariant (publicKeyB64Size env.width + 4)) :=
    keyVariant_expected hpublic htext (by rw [publicKeyB64Size_eq]; decide) _ _
  have hfill : plaintext.length = tc.plaintextLen := fillBytes_length _ _
  have hexpect := expectSuccess_iff hkey
  have hargs := sealArguments_iff hkey rfl
  unfold fuzzOneInput
  rw [hready]
  simp only [sealCase_eq]
  generalize roundtripBuildKeyVariant tc.keyMode text env.keyVariant
    (publicKeyB64Size env.width + 4) = key at *
  obtain ⟨hok, hinput⟩ := saltSealBase64Keylen_ok_iff env.width plaintext key.2.bytes
    ((fresh env.encryptedB64 tc.outputSize).set 0 0) (some 0)
    (some (List.replicate roundtripErrBuf 0)) hf hinit halloc hbox
  by_cases hmust : MustSeal tc
  · have harguments := hargs.2 hmust
    have hseal : Seals env.sodium plaintext publicKey := hseals hmust
    have hkeyText := hkey.keyText (hkey.accepted.2 hmust.key)
    have hstatus := hok.2 ⟨harguments, (sealsText_iff hkeyText).2 hseal⟩
    obtain ⟨-, more, hout, -, hwritten⟩ := sealed_output hf hbox hkeyText hstatus harguments
    have hcap := encode_capacity harguments (hbox.length plaintext publicKey hseal)
    rw [List.length_set, fresh_length] at hcap
    rw [if_pos (hexpect.2 hmust), expectedSuccess_eq hf (hbox.length plaintext publicKey hseal)
      (hfill.trans_le hmax) (hbox.opens plaintext publicKey secretKey hseal hkeys) hfill.symm hstatus
      hout hwritten hcap]
    simp only [hmust, true_and]
    rfl
  · have hstatus := hinput fun h => hmust (hargs.1 h)
    rw [if_neg fun h => hmust (hexpect.1 h), if_neg fun h => hmust h.1,
      roundtripAssertExpectedFailure, if_neg (not_not.2 hstatus)]

/-- A box that opens only as it was sealed. -/
def sampleFuzz : FuzzEnv where
  width := .w64
  sodium := referenceSodium
  cryptoBoxSeedKeypair _ := (0, sampleKey, sampleSecretKey)
  cryptoBoxSealOpen ciphertext _ _ :=
    if ciphertext.take cryptoBoxSealBytes = List.replicate cryptoBoxSealBytes 0 then
      some (ciphertext.drop cryptoBoxSealBytes)
    else none
  encryptedB64 _ := 0xAA
  keyVariant := .ofAscii ""

theorem sampleFuzz_inverts : BoxSealInverts sampleFuzz.sodium (fun _ _ => True)
    sampleFuzz.cryptoBoxSealOpen where
  length := referenceSodium_inverts.length
  opens message publicKey _ h _ := by
    have hbox : (referenceSodium.cryptoBoxSeal message publicKey).2 =
        List.replicate cryptoBoxSealBytes 0 ++ message := referenceSodium_seals h
    simp [sampleFuzz, hbox]

theorem fuzzOneInput_eq_sample :
    MustSeal (roundtripParseCase .w64 [0, 0, 3, 104, 105]) ∧
      fuzzOneInput sampleFuzz [0, 0, 3, 104, 105] = .finished := by
  have hrun := (fuzzOneInput_eq sampleFuzz (fun _ _ => True) referenceSodium_follows (by decide)
    (by simp [sampleFuzz, referenceSodium]) sampleFuzz_inverts _ _ rfl rfl trivial
    [0, 0, 3, 104, 105] fun _ => sampleKey_seals _).2.2
  rw [if_neg fun h => absurd h.2.2 (by decide)] at hrun
  exact ⟨by decide, hrun⟩

end Salt.FuzzRoundtripCorrect
