import Salt.SealingContract

set_option autoImplicit false

/-!
# Sealing over libsodium

What the library promises of its base64 functions is stated against the
format itself. Under it, sealing succeeds exactly on the valid arguments, and
the output opens to the message.
-/
namespace Salt.SealingCorrect
open ByteStrings Base64Text WrappingArithmetic Sealing SealingContract

structure FollowsLibsodium (sodium : Sodium) : Prop where
  decode_ok : ∀ padded maxLen b64 out stop, decodePrefix padded b64 = some (out, stop) →
    out.length ≤ maxLen → sodium.base642bin padded maxLen b64 = ⟨0, out, out.length, some stop⟩
  decode_fail : ∀ padded maxLen b64,
    (∀ out stop, decodePrefix padded b64 = some (out, stop) → maxLen < out.length) →
      (sodium.base642bin padded maxLen b64).ret ≠ 0
  encode_ok : ∀ maxLen bin, (encode true bin).length < maxLen → ∃ more text,
    sodium.bin2base64 maxLen bin = (encode true bin ++ 0 :: more, some text) ∧
      text.bytes = encode true bin

/-- Padded or unpadded base64 text of a public key. -/
def IsKeyText (text publicKey : Bytes) : Prop :=
  publicKey.length = cryptoBoxPublicKeyBytes ∧
    (text = encode true publicKey ∨ text = encode false publicKey)

theorem IsKeyText.length {text publicKey : Bytes} (h : IsKeyText text publicKey) :
    text.length = 44 ∨ text.length = 43 := by
  obtain ⟨hlen, rfl | rfl⟩ := h
  · left
    rw [encode_length_padded, hlen]
    rfl
  · right
    rw [encode_length_unpadded, hlen]
    rfl

theorem IsKeyText.unique {text publicKey publicKey' : Bytes} (h : IsKeyText text publicKey)
    (h' : IsKeyText text publicKey') : publicKey = publicKey' := by
  have hdecode {padded : Bool} {out : Bytes} (ht : text = encode padded out) :
      decodePrefix padded text = some (out, text.length) := (decodePrefix_all_iff _ _ _).2 ht
  have hne {out out' : Bytes} (hl : out.length = cryptoBoxPublicKeyBytes)
      (hl' : out'.length = cryptoBoxPublicKeyBytes) : encode true out ≠ encode false out' := by
    intro heq
    have := congrArg List.length heq
    rw [encode_length_padded, encode_length_unpadded, hl, hl'] at this
    exact absurd this (by decide)
  obtain ⟨hl, h⟩ := h
  obtain ⟨hl', h'⟩ := h'
  rcases h with h | h <;> rcases h' with h' | h'
  · simpa using (hdecode h).symm.trans (hdecode h')
  · exact absurd (h.symm.trans h') (hne hl hl')
  · exact absurd (h'.symm.trans h) (hne hl' hl)
  · simpa using (hdecode h).symm.trans (hdecode h')

theorem maxPublicKeyB64Len_eq (W : SizeWidth) : maxPublicKeyB64Len W = 44 := by
  cases W <;> rfl

section Decoding
variable {W : SizeWidth} {sodium : Sodium}

theorem variant_accepts_iff (h : FollowsLibsodium sodium) (padded : Bool) (b64 : Bytes) :
    let r := sodium.base642bin padded cryptoBoxPublicKeyBytes b64
    r.ret = 0 ∧ r.binLen = cryptoBoxPublicKeyBytes ∧ r.stop = some b64.length ↔
      ∃ out, out.length = cryptoBoxPublicKeyBytes ∧ b64 = encode padded out ∧ r.bin = out := by
  intro r
  constructor
  · rintro ⟨hret, hlen, hstop⟩
    obtain ⟨out, stop, hdecode, hout⟩ : ∃ out stop, decodePrefix padded b64 = some (out, stop) ∧
        out.length ≤ cryptoBoxPublicKeyBytes := by
      by_contra hnone
      refine h.decode_fail padded cryptoBoxPublicKeyBytes b64 (fun out stop hdecode => ?_) hret
      by_contra hle
      exact hnone ⟨out, stop, hdecode, by omega⟩
    have hr : r = ⟨0, out, out.length, some stop⟩ := h.decode_ok _ _ _ _ _ hdecode hout
    rw [hr] at hlen hstop ⊢
    obtain rfl : stop = b64.length := by simpa using hstop
    exact ⟨out, hlen, (decodePrefix_all_iff _ _ _).1 hdecode, rfl⟩
  · rintro ⟨out, hlen, hb64, -⟩
    have hr : r = ⟨0, out, out.length, some b64.length⟩ :=
      h.decode_ok _ _ _ _ _ ((decodePrefix_all_iff _ _ _).2 hb64) hlen.le
    rw [hr]
    exact ⟨rfl, hlen, rfl⟩

theorem put_whole {buffer data : Bytes} (h : data.length = buffer.length) : put buffer data = data := by
  simp [put, overwrite, ← h]

theorem decodeVariants_eq (h : FollowsLibsodium sodium) (b64 : Bytes) (vs : List Bool)
    {publicKey : Bytes} (hkey : publicKey.length = cryptoBoxPublicKeyBytes) :
    (∃ out, (out.length = cryptoBoxPublicKeyBytes ∧ ∃ v ∈ vs, b64 = encode v out) ∧
        decodeVariants sodium b64 vs publicKey = (true, out)) ∨
      (¬ ∃ out, out.length = cryptoBoxPublicKeyBytes ∧ ∃ v ∈ vs, b64 = encode v out) ∧
        (decodeVariants sodium b64 vs publicKey).1 = false := by
  induction vs generalizing publicKey with
  | nil => exact .inr ⟨by simp, rfl⟩
  | cons v vs ih =>
    have hiff := variant_accepts_iff h v b64
    rw [decodeVariants]
    by_cases hacc : ∃ out, out.length = cryptoBoxPublicKeyBytes ∧ b64 = encode v out ∧
        (sodium.base642bin v cryptoBoxPublicKeyBytes b64).bin = out
    · obtain ⟨out, hlen, hb64, hbin⟩ := hacc
      refine .inl ⟨out, ⟨hlen, v, by simp, hb64⟩, ?_⟩
      simp only [if_pos (hiff.2 ⟨out, hlen, hb64, hbin⟩), hbin]
      rw [put_whole (hlen.trans hkey.symm)]
    · simp only [if_neg fun hc => hacc (hiff.1 hc)]
      rcases ih ((put_length publicKey (sodium.base642bin v cryptoBoxPublicKeyBytes b64).bin).trans
        hkey) with ⟨out, ⟨hlen, v', hv', hb64⟩, hrun⟩ | ⟨hnone, hrun⟩
      · exact .inl ⟨out, ⟨hlen, v', by simp [hv'], hb64⟩, hrun⟩
      · refine .inr ⟨?_, hrun⟩
        rintro ⟨out, hlen, v', hv', hb64⟩
        rcases List.mem_cons.1 hv' with rfl | hv'
        · refine hacc ⟨out, hlen, hb64, ?_⟩
          rw [h.decode_ok _ _ _ _ _ ((decodePrefix_all_iff _ _ _).2 hb64) hlen.le]
        · exact hnone ⟨out, hlen, v', hv', hb64⟩

theorem exists_variant_iff (b64 out : Bytes) :
    (out.length = cryptoBoxPublicKeyBytes ∧ ∃ v ∈ variants, b64 = encode v out) ↔
      IsKeyText b64 out := by
  simp [IsKeyText, variants, or_comm]

/-- Decoding returns the key of a key text, and refuses everything else. -/
theorem decodedKey_of_text (h : FollowsLibsodium sodium) {b64 publicKey : Bytes}
    (ht : IsKeyText b64 publicKey) : decodedKey W sodium b64 = (true, publicKey) := by
  have hlen := ht.length
  rw [decodedKey, decodePublicKey, if_neg (by rw [maxPublicKeyB64Len_eq]; omega)]
  rcases decodeVariants_eq h b64 variants
    (fresh_length sodium.scratch cryptoBoxPublicKeyBytes) with ⟨out, hout, hrun⟩ | ⟨hnone, -⟩
  · rw [hrun, ((exists_variant_iff b64 out).1 hout).unique ht]
  · exact absurd ⟨publicKey, (exists_variant_iff b64 publicKey).2 ht⟩ hnone

theorem text_of_decodedKey (h : FollowsLibsodium sodium) {b64 : Bytes}
    (hd : (decodedKey W sodium b64).1 = true) : ∃ publicKey, IsKeyText b64 publicKey := by
  unfold decodedKey decodePublicKey at hd
  split_ifs at hd
  rcases decodeVariants_eq h b64 variants
    (fresh_length sodium.scratch cryptoBoxPublicKeyBytes) with ⟨out, hout, -⟩ | ⟨-, hrun⟩
  · exact ⟨out, (exists_variant_iff b64 out).1 hout⟩
  · rw [hrun] at hd
    exact absurd hd (by decide)

theorem decodeVariants_failed (b64 : Bytes) (vs : List Bool) (publicKey : Bytes)
    (hfail : (decodeVariants sodium b64 vs publicKey).1 = false) :
    (decodeVariants sodium b64 vs publicKey).2 = List.replicate publicKey.length 0 := by
  induction vs generalizing publicKey with
  | nil => rfl
  | cons v vs ih =>
    rw [decodeVariants] at hfail ⊢
    split_ifs at hfail ⊢
    rw [ih _ hfail, put_length]

/-- The attempts may be made in any order. -/
theorem decodeVariants_perm (h : FollowsLibsodium sodium) (b64 : Bytes) {vs : List Bool}
    (hvs : vs.Perm variants) {publicKey : Bytes}
    (hkey : publicKey.length = cryptoBoxPublicKeyBytes) :
    decodeVariants sodium b64 vs publicKey = decodeVariants sodium b64 variants publicKey := by
  have hmem (out : Bytes) : (∃ v ∈ vs, b64 = encode v out) ↔ ∃ v ∈ variants, b64 = encode v out := by
    simp only [hvs.mem_iff]
  have hfailed {us : List Bool} (hf : (decodeVariants sodium b64 us publicKey).1 = false) :
      decodeVariants sodium b64 us publicKey = (false, List.replicate publicKey.length 0) :=
    Prod.ext hf (decodeVariants_failed b64 us publicKey hf)
  rcases decodeVariants_eq h b64 vs hkey with ⟨out, hout, hrun⟩ | ⟨hnone, hrun⟩
  · rw [hmem] at hout
    rcases decodeVariants_eq h b64 variants hkey with ⟨out', hout', hrun'⟩ | ⟨hnone', -⟩
    · rw [hrun, hrun', ((exists_variant_iff b64 out).1 hout).unique
        ((exists_variant_iff b64 out').1 hout')]
    · exact absurd ⟨out, hout⟩ hnone'
  · simp only [hmem] at hnone
    rcases decodeVariants_eq h b64 variants hkey with ⟨out', hout', -⟩ | ⟨-, hrun'⟩
    · exact absurd ⟨out', hout'⟩ hnone
    · rw [hfailed hrun, hfailed hrun']

theorem decodePublicKey_iff (h : FollowsLibsodium sodium) (s : Bytes) {publicKey : Bytes}
    (hkey : publicKey.length = cryptoBoxPublicKeyBytes) (key : Bytes) :
    decodePublicKey W sodium s publicKey = (true, key) ↔ IsKeyText s key := by
  rw [decodePublicKey, maxPublicKeyB64Len_eq]
  by_cases hrange : s.length = 0 ∨ 44 < s.length
  · rw [if_pos hrange]
    refine iff_of_false (by simp) fun hs => ?_
    have := hs.length
    omega
  rw [if_neg hrange]
  rcases decodeVariants_eq h s variants hkey with ⟨out, hout, hrun⟩ | ⟨hnone, hrun⟩
  · have hs := (exists_variant_iff s out).1 hout
    rw [hrun, Prod.mk.injEq, eq_self_iff_true, true_and]
    exact ⟨fun heq => heq ▸ hs, fun hs' => hs.unique hs'⟩
  · refine iff_of_false (fun heq => ?_) fun hs => hnone ⟨key, (exists_variant_iff s key).2 hs⟩
    rw [heq] at hrun
    exact Bool.noConfusion hrun

/-- The decoder accepts the two spellings of a key and nothing else. -/
theorem decodePublicKey_correct (W : SizeWidth) (sodium : Sodium) (h : FollowsLibsodium sodium)
    (s publicKey : Bytes) (hkey : publicKey.length = cryptoBoxPublicKeyBytes) :
    (∀ key, decodePublicKey W sodium s publicKey = (true, key) ↔
      key.length = cryptoBoxPublicKeyBytes ∧
        (s.length = 44 ∧ s = encode true key ∨ s.length = 43 ∧ s = encode false key)) ∧
    ((decodePublicKey W sodium s publicKey).1 = false →
      (decodePublicKey W sodium s publicKey).2 =
        if s.length = 0 ∨ 44 < s.length then publicKey
        else List.replicate cryptoBoxPublicKeyBytes 0) ∧
    ∀ vs, vs.Perm variants →
      decodeVariants sodium s vs publicKey = decodeVariants sodium s variants publicKey := by
  refine ⟨fun key => ?_, fun hfail => ?_, fun vs hvs => decodeVariants_perm h s hvs hkey⟩
  · rw [decodePublicKey_iff h s hkey]
    refine and_congr_right fun hlen => or_congr ?_ ?_
    · refine ⟨fun hs => ⟨?_, hs⟩, And.right⟩
      rw [hs, encode_length_padded, hlen]
      rfl
    · refine ⟨fun hs => ⟨?_, hs⟩, And.right⟩
      rw [hs, encode_length_unpadded, hlen]
      rfl
  · rw [decodePublicKey, maxPublicKeyB64Len_eq] at hfail ⊢
    split_ifs at hfail ⊢
    · rfl
    · rw [decodeVariants_failed s variants publicKey hfail, hkey]

end Decoding

theorem rounding_eq {rest : ℕ} (h : rest < 3) :
    (rest ||| rest >>> 1) &&& 1 = if rest = 0 then 0 else 1 := by
  obtain rfl | rfl | rfl : rest = 0 ∨ rest = 1 ∨ rest = 2 := by omega
  all_goals rfl

theorem encodedLen_yields {W : SizeWidth} {n : ℕ} (h : 4 * ((n + 2) / 3) + 1 < W.modulus) :
    Yields W.modulus (encodedLen W n) (4 * ((n + 2) / 3) + 1) := by
  have hrest : n - n / 3 * 3 < 3 := by omega
  have hrounding := rounding_eq hrest
  have hlen : n / 3 * 4 + (if n - n / 3 * 3 = 0 then 0 else 1) * 4 = 4 * ((n + 2) / 3) := by
    split_ifs <;> omega
  refine (yields_mul (by omega)).bind <| (yields_mul (by omega)).bind <|
    (yields_sub (by omega) (by omega)).bind ?_
  rw [hrounding]
  refine (yields_mul (by omega)).bind <| (yields_add (by omega)).bind ?_
  rw [hlen]
  exact yields_add h

/-- The two guards leave the sizes on which nothing wraps. -/
theorem requiredOutputLen_yields {W : SizeWidth} {messageLen : ℕ}
    (h : 4 * ((messageLen + cryptoBoxSealBytes + 2) / 3) + 1 < W.modulus) :
    Yields W.modulus (requiredOutputLen W messageLen)
      (4 * ((messageLen + cryptoBoxSealBytes + 2) / 3) + 1) := by
  have hW := modulus_large W
  have hmax : sizeMax W = W.modulus - 1 := rfl
  have hs : cryptoBoxSealBytes = 48 := rfl
  have hguard : messageLen + cryptoBoxSealBytes ≤ (sizeMax W - 1) / 4 * 3 := by
    unfold sizeMax
    cases W <;> simp only [SizeWidth.modulus] at h ⊢ <;> omega
  refine (yields_sub (by omega) (by omega)).bind <| .otherwise (by omega) ?_
  refine (yields_add (by omega)).bind <| (yields_sub (by omega) (by omega)).bind <|
    (yields_mul (by omega)).bind <| .otherwise (by omega) ?_
  exact encodedLen_yields h

/-- Within the message limit the required length is that of the encoded ciphertext. -/
theorem saltRequiredBase64OutputLen_eq (W : SizeWidth) {n : ℕ} (h : n ≤ saltMaxMessageLen) :
    saltRequiredBase64OutputLen W n = 4 * ((n + cryptoBoxSealBytes + 2) / 3) + 1 ∧
      saltRequiredBase64OutputLen W n ≠ sizeMax W := by
  have hW := modulus_large W
  have hn : n ≤ 1048576 := h
  have hs : cryptoBoxSealBytes = 48 := rfl
  have heq : saltRequiredBase64OutputLen W n = 4 * ((n + cryptoBoxSealBytes + 2) / 3) + 1 :=
    (requiredOutputLen_yields (by omega)).value
  refine ⟨heq, ?_⟩
  rw [heq, sizeMax]
  omega

/-- `crypto_box_seal` succeeds on this message and key; it refuses keys of small order. -/
def Seals (sodium : Sodium) (message publicKey : Bytes) : Prop :=
  (sodium.cryptoBoxSeal message publicKey).1 = 0

/-- `crypto_box_seal_open` inverts the calls of `crypto_box_seal` that succeed. -/
structure BoxSealInverts (sodium : Sodium) (keyPair : Bytes → Bytes → Prop)
    (cryptoBoxSealOpen : Bytes → Bytes → Bytes → Option Bytes) : Prop where
  length : ∀ message publicKey, Seals sodium message publicKey →
    (sodium.cryptoBoxSeal message publicKey).2.length = message.length + cryptoBoxSealBytes
  opens : ∀ message publicKey secretKey, Seals sodium message publicKey →
    keyPair publicKey secretKey →
      cryptoBoxSealOpen (sodium.cryptoBoxSeal message publicKey).2 publicKey secretKey = some message

section Seal
variable {W : SizeWidth} {sodium : Sodium} {message publicKeyB64 output : Bytes}
  {keyPair : Bytes → Bytes → Prop} {cryptoBoxSealOpen : Bytes → Bytes → Bytes → Option Bytes}

def SealArguments (W : SizeWidth) (message publicKeyB64 output : Bytes) : Prop :=
  1 ≤ message.length ∧ message.length ≤ saltMaxMessageLen ∧
    (∃ publicKey, IsKeyText publicKeyB64 publicKey) ∧
    saltRequiredBase64OutputLen W message.length ≤ output.length

/-- The box can be made for the key that the text spells. -/
def SealsText (sodium : Sodium) (message publicKeyB64 : Bytes) : Prop :=
  ∀ publicKey, IsKeyText publicKeyB64 publicKey → Seals sodium message publicKey

theorem sealsText_iff {publicKey : Bytes} (hkey : IsKeyText publicKeyB64 publicKey) :
    SealsText sodium message publicKeyB64 ↔ Seals sodium message publicKey := by
  refine ⟨fun h => h publicKey hkey, fun h publicKey' hkey' => ?_⟩
  rwa [hkey'.unique hkey]

theorem sealedBlock_eq (hbox : BoxSealInverts sodium keyPair cryptoBoxSealOpen)
    {message publicKey : Bytes} (hseals : Seals sodium message publicKey) (content : ℕ → UInt8) :
    sealedBlock sodium message publicKey content = (sodium.cryptoBoxSeal message publicKey).2 := by
  rw [sealedBlock, put_whole]
  rw [hbox.length _ _ hseals, fresh_length]

theorem encode_capacity (h : SealArguments W message publicKeyB64 output) {bin : Bytes}
    (hbin : bin.length = message.length + cryptoBoxSealBytes) :
    (encode true bin).length < output.length := by
  have hreq := (saltRequiredBase64OutputLen_eq W h.2.1).1
  have hcap := h.2.2.2
  rw [encode_length_padded, hbin]
  omega

theorem boxSealFails_iff (h : FollowsLibsodium sodium) {publicKey : Bytes}
    (hkey : IsKeyText publicKeyB64 publicKey) :
    boxSealFails W sodium message publicKeyB64 = false ↔ Seals sodium message publicKey := by
  simp [boxSealFails, decodedKey_of_text h hkey, Seals]

theorem stage_passes (h : FollowsLibsodium sodium) (hinit : 0 ≤ sodium.init)
    (halloc : sodium.alloc ≠ none) (hbox : BoxSealInverts sodium keyPair cryptoBoxSealOpen)
    (hargs : SealArguments W message publicKeyB64 output)
    (hseals : SealsText sodium message publicKeyB64) (stage : SealStage) :
    stage.fails W sodium (some message) (some publicKeyB64) (some output) = false := by
  obtain ⟨content, hcontent⟩ := Option.ne_none_iff_exists'.1 halloc
  obtain ⟨hmin, hmax, ⟨publicKey, hkey⟩, hcap⟩ := id hargs
  have hlen := hkey.length
  have hdecode := decodedKey_of_text (W := W) h hkey
  have hreq := (saltRequiredBase64OutputLen_eq W hmax).2
  have hseal := hseals publicKey hkey
  cases stage <;> simp only [SealStage.fails, Option.getD_some, decide_eq_false_iff_not]
  case nullArguments => simp
  case keyDecode => simp [hdecode]
  case allocation => simp [hcontent]
  case boxSeal => exact (boxSealFails_iff h hkey).2 hseal
  case encode =>
    obtain ⟨more, text, hrun, -⟩ :=
      h.encode_ok output.length _ (encode_capacity hargs (hbox.length _ _ hseal))
    rw [encoded, hcontent, Option.bind_some, hdecode, sealedBlock_eq hbox hseal, hrun]
    simp
  all_goals omega

theorem sealArguments_of_early (h : FollowsLibsodium sodium)
    (hearly : ∀ stage ∈ sealStages.take 6,
      stage.fails W sodium (some message) (some publicKeyB64) (some output) = false) :
    SealArguments W message publicKeyB64 output := by
  have hlen := hearly .messageLength (by decide)
  have hkey := hearly .keyDecode (by decide)
  have hcap := hearly .outputCapacity (by decide)
  simp only [SealStage.fails, Option.getD_some, decide_eq_false_iff_not, not_or] at hlen hkey hcap
  exact ⟨by omega, by omega, text_of_decodedKey h (by simpa using hkey), by omega⟩

theorem firstFailure_none_iff (h : FollowsLibsodium sodium) (hinit : 0 ≤ sodium.init)
    (halloc : sodium.alloc ≠ none) (hbox : BoxSealInverts sodium keyPair cryptoBoxSealOpen) :
    firstFailure W sodium (some message) (some publicKeyB64) (some output) = none ↔
      SealArguments W message publicKeyB64 output ∧ SealsText sodium message publicKeyB64 := by
  constructor
  · intro hnone
    have hpass (stage : SealStage) (hs : stage ∈ sealStages) :=
      Bool.eq_false_iff.2 (List.find?_eq_none.1 hnone stage hs)
    refine ⟨sealArguments_of_early h fun stage hs => hpass stage (List.mem_of_mem_take hs),
      fun publicKey hkey => (boxSealFails_iff (W := W) h hkey).1 ?_⟩
    simpa [SealStage.fails] using hpass .boxSeal (by decide)
  · rintro ⟨hargs, hseals⟩
    exact List.find?_eq_none.2 fun stage _ => by
      simp [stage_passes h hinit halloc hbox hargs hseals stage]

theorem firstFailure_status (h : FollowsLibsodium sodium) (hinit : 0 ≤ sodium.init)
    (hargs : ¬ SealArguments W message publicKeyB64 output) {stage : SealStage}
    (hfirst : firstFailure W sodium (some message) (some publicKeyB64) (some output) = some stage) :
    stage.status = .errInput := by
  rw [firstFailure, ← List.take_append_drop 6 sealStages, List.find?_append] at hfirst
  cases hfind : (sealStages.take 6).find? (SealStage.fails W sodium (some message)
      (some publicKeyB64) (some output)) with
  | none =>
    exact absurd (sealArguments_of_early h fun stage hs =>
      Bool.eq_false_iff.2 (List.find?_eq_none.1 hfind stage hs)) hargs
  | some stage' =>
    obtain rfl : stage' = stage := by simpa [hfind] using hfirst
    have hmem := List.mem_of_find?_eq_some hfind
    have hfails := List.find?_some hfind
    cases stage' <;> simp [sealStages] at hmem <;> try rfl
    simp only [SealStage.fails, decide_eq_true_eq] at hfails
    omega

theorem text_noNul (padded : Bool) (bin : Bytes) : 0 ∉ encode padded bin := fun h =>
  absurd (encode_ascii padded bin 0 h).1 (by decide)

def textOf (bytes : Bytes) : CString := ⟨encode true bytes, text_noNul true bytes⟩

theorem put_text {buffer text : Bytes} (h : text.length < buffer.length) (more : Bytes) :
    ∃ rest, put buffer (text ++ 0 :: more) = text ++ 0 :: rest := by
  obtain ⟨k, hk⟩ : ∃ k, buffer.length - text.length = k + 1 :=
    ⟨buffer.length - text.length - 1, by omega⟩
  rw [put, overwrite, List.take_append, List.take_of_length_le (by omega), hk,
    List.take_succ_cons, List.append_assoc, List.cons_append]
  exact ⟨_, rfl⟩

theorem sealed_output (h : FollowsLibsodium sodium)
    (hbox : BoxSealInverts sodium keyPair cryptoBoxSealOpen) {publicKey : Bytes}
    (hkey : IsKeyText publicKeyB64 publicKey) {outputWritten : Option ℕ} {error : Option Bytes}
    (hok : (saltSealBase64Keylen W sodium (some message) (some publicKeyB64) (some output)
      outputWritten error).status = .ok)
    (hargs : SealArguments W message publicKeyB64 output) :
    Seals sodium message publicKey ∧
    let ciphertext := (sodium.cryptoBoxSeal message publicKey).2
    let r := saltSealBase64Keylen W sodium (some message) (some publicKeyB64) (some output)
      outputWritten error
    ∃ more, r.output = some (encode true ciphertext ++ 0 :: more) ∧
      (encode true ciphertext ++ 0 :: more).length = output.length ∧
      r.outputWritten = outputWritten.map fun _ => (encode true ciphertext).length := by
  have hcontract := sealContract W sodium (some message) (some publicKeyB64) (some output)
    outputWritten error
  have hseals : Seals sodium message publicKey := by
    refine (boxSealFails_iff (W := W) h hkey).1 (Bool.eq_false_iff.2 fun hfails => ?_)
    have hnone := hcontract.status
    rw [hok] at hnone
    cases hfirst : firstFailure W sodium (some message) (some publicKeyB64) (some output) with
    | none =>
      have hpasses := List.find?_eq_none.1 hfirst .boxSeal (by decide)
      exact hpasses (by simpa [SealStage.fails] using hfails)
    | some stage =>
      rw [hfirst] at hnone
      exact sealStage_status_ne_ok stage hnone.symm
  refine ⟨hseals, ?_⟩
  intro ciphertext r
  obtain ⟨content, hcontent, hout⟩ := hcontract.output_encoded hok
  obtain ⟨text, htext, hwritten⟩ := hcontract.written hok
  have hfits : (encode true ciphertext).length < output.length :=
    encode_capacity hargs (hbox.length _ _ hseals)
  obtain ⟨more, text', hrun, htext'⟩ := h.encode_ok output.length ciphertext hfits
  simp only [Option.getD_some, Option.map_some] at hout htext
  rw [decodedKey_of_text h hkey, sealedBlock_eq hbox hseals, hrun] at hout
  rw [encoded, hcontent, Option.bind_some, decodedKey_of_text h hkey, sealedBlock_eq hbox hseals,
    hrun, Option.some.injEq] at htext
  obtain ⟨rest, hrest⟩ := put_text hfits more
  refine ⟨rest, by rw [← hrest]; exact hout, ?_, ?_⟩
  · rw [← hrest, put_length]
  · rw [hwritten, ← htext, htext']

end Seal

section Measured
variable (W : SizeWidth) (sodium : Sodium) (message output : Option Bytes) (key : Option CString)
  (outputWritten : Option ℕ) (error : Option Bytes)

/-- A key that is too long is refused whatever its bytes are. -/
theorem decodePublicKey_take (s publicKey : Bytes) :
    decodePublicKey W sodium (s.take (min s.length 45)) publicKey =
      decodePublicKey W sodium s publicKey := by
  by_cases hlen : s.length ≤ 45
  · rw [List.take_of_length_le (by omega)]
  · have htake : (s.take (min s.length 45)).length = 45 := by
      rw [List.length_take]
      omega
    rw [decodePublicKey, decodePublicKey, maxPublicKeyB64Len_eq, htake, if_pos (by omega),
      if_pos (by omega)]

theorem saltSealBase64Keylen_take (s : Bytes) :
    saltSealBase64Keylen W sodium message (some (s.take (min s.length 45))) output outputWritten
        error =
      saltSealBase64Keylen W sodium message (some s) output outputWritten error := by
  have hempty : (s.take (min s.length 45)).length = 0 ↔ s.length = 0 := by
    rw [List.length_take]
    omega
  have hinputs : saltValidateSealInputs message (some (s.take (min s.length 45))) output error =
      saltValidateSealInputs message (some s) output error := by
    cases message <;> cases output <;> simp only [saltValidateSealInputs, hempty]
  have hlocked (message output : Bytes) (outputWritten : Option ℕ) (error : Option Bytes) :
      sealLocked W sodium message (s.take (min s.length 45)) output outputWritten error =
        sealLocked W sodium message s output outputWritten error := by
    simp only [sealLocked, decodePublicKey_take]
  unfold saltSealBase64Keylen
  simp only [hinputs]
  cases message <;> cases output <;> simp only [hlocked]

theorem measured_key :
    saltSealBase64Keylen W sodium message (key.map fun s => s.bytes.take
        (saltBoundedStrlen key (maxPublicKeyB64Len W + 1))) output outputWritten error =
      saltSealBase64Keylen W sodium message (key.map CString.bytes) output outputWritten error := by
  cases key with
  | none => rfl
  | some key =>
    have hscan : saltBoundedStrlen (some key) (maxPublicKeyB64Len W + 1) =
        min key.bytes.length 45 := by
      rw [maxPublicKeyB64Len_eq]
      rfl
    simp only [Option.map_some, hscan, saltSealBase64Keylen_take]

end Measured

section Status
variable {sodium : Sodium} {keyPair : Bytes → Bytes → Prop}
  {cryptoBoxSealOpen : Bytes → Bytes → Bytes → Option Bytes} (W : SizeWidth)
  (message publicKeyB64 output : Bytes) (outputWritten : Option ℕ) (error : Option Bytes)

theorem saltSealBase64Keylen_ok_iff (h : FollowsLibsodium sodium) (hinit : 0 ≤ sodium.init)
    (halloc : sodium.alloc ≠ none) (hbox : BoxSealInverts sodium keyPair cryptoBoxSealOpen) :
    let r := saltSealBase64Keylen W sodium (some message) (some publicKeyB64) (some output)
      outputWritten error
    (r.status = .ok ↔
      SealArguments W message publicKeyB64 output ∧ SealsText sodium message publicKeyB64) ∧
      (¬ SealArguments W message publicKeyB64 output → r.status = .errInput) := by
  intro r
  have hstatus : r.status = _ := (sealContract W sodium (some message) (some publicKeyB64)
    (some output) outputWritten error).status
  have hnone : firstFailure W sodium (some message) (some publicKeyB64) (some output) = none ↔
      SealArguments W message publicKeyB64 output ∧ SealsText sodium message publicKeyB64 :=
    firstFailure_none_iff h hinit halloc hbox
  rw [← hnone, hstatus]
  cases hfirst : firstFailure W sodium (some message) (some publicKeyB64) (some output) with
  | none => exact ⟨by simp, fun hargs => absurd (hnone.1 hfirst).1 hargs⟩
  | some stage =>
    exact ⟨by simp [sealStage_status_ne_ok], fun hargs => firstFailure_status h hinit hargs hfirst⟩

end Status

/-- Sealing succeeds on exactly the valid arguments, and what it writes opens to the message. -/
theorem saltSealBase64_roundTrip (W : SizeWidth) (sodium : Sodium) (h : FollowsLibsodium sodium)
    (hinit : 0 ≤ sodium.init) (halloc : sodium.alloc ≠ none)
    (keyPair : Bytes → Bytes → Prop) (cryptoBoxSealOpen : Bytes → Bytes → Bytes → Option Bytes)
    (hbox : BoxSealInverts sodium keyPair cryptoBoxSealOpen)
    (message : Bytes) (key : CString)
    (hseals : ∀ publicKey, IsKeyText key.bytes publicKey → Seals sodium message publicKey)
    (output : Bytes) (outputWritten : Option ℕ) (error : Option Bytes) :
    let n := message.length
    let r := saltSealBase64 W sodium (some message) (some key) (some output) outputWritten error
    (r.status = .ok ↔ 1 ≤ n ∧ n ≤ saltMaxMessageLen ∧
      (∃ publicKey, IsKeyText key.bytes publicKey) ∧
      saltRequiredBase64OutputLen W n ≤ output.length) ∧
    (r.status ≠ .ok → r.status = .errInput) ∧
    (r.status = .ok → ∃ buffer ciphertext, r.output = some buffer ∧ 0 ∈ buffer ∧
      r.outputWritten = outputWritten.map (fun _ => (cstr buffer).length) ∧
      (cstr buffer).length = 4 * ((n + cryptoBoxSealBytes + 2) / 3) ∧
      decodePrefix true (cstr buffer) = some (ciphertext, (cstr buffer).length) ∧
      ciphertext.length = n + cryptoBoxSealBytes ∧
      ∀ publicKey secretKey, IsKeyText key.bytes publicKey → keyPair publicKey secretKey →
        cryptoBoxSealOpen ciphertext publicKey secretKey = some message) := by
  intro n r
  have hr : r = saltSealBase64Keylen W sodium (some message) (some key.bytes) (some output)
      outputWritten error := measured_key W sodium (some message) (some output) (some key) _ _
  obtain ⟨hok, hinput⟩ := saltSealBase64Keylen_ok_iff W message key.bytes output outputWritten error
    h hinit halloc hbox
  have hsealsText : SealsText sodium message key.bytes := hseals
  simp only [← hr, hsealsText, and_true] at hok hinput
  refine ⟨hok, fun hne => hinput fun hargs => hne (hok.2 hargs), fun hst => ?_⟩
  have hargs := hok.1 hst
  obtain ⟨publicKey, hkey⟩ := hargs.2.2.1
  obtain ⟨hseal, more, hout, -, hwritten⟩ := sealed_output h hbox hkey (hr ▸ hst) hargs
  rw [← hr] at hout hwritten
  refine ⟨_, (sodium.cryptoBoxSeal message publicKey).2, hout, by simp, ?_, ?_, ?_,
    hbox.length _ _ hseal, ?_⟩
  · rw [hwritten, cstr_append_zero (text_noNul _ _)]
  · rw [cstr_append_zero (text_noNul _ _), encode_length_padded, hbox.length _ _ hseal]
  · rw [cstr_append_zero (text_noNul _ _)]
    exact decodePrefix_encode true _
  · intro publicKey' secretKey hkey' hpair
    obtain rfl := hkey.unique hkey'
    exact hbox.opens _ _ _ hseal hpair

/-- The coordinate that a public key stands for: little endian, without the top bit. -/
def coordinate (publicKey : Bytes) : ℕ :=
  publicKey.foldr (fun byte n => byte.toNat + 256 * n) 0 % 2 ^ 255

/-- The coordinates of small order on the curve. -/
def smallOrder : List ℕ :=
  let p := 2 ^ 255 - 19
  [0, 1, 325606250916557431795983626356110631294008115727848805560023387167927233504,
    39382357235489614581723060781553021112529911719440698176882885853963445705823, p - 1, p, p + 1]

/-- A libsodium that can be run: base64 and the keys refused are real, the box that is sealed only
has its overhead before the message. -/
def referenceSodium : Sodium where
  init := 0
  mlockPublicKey := 0
  mlockCiphertext := 0
  munlockPublicKey := 0
  munlockCiphertext := 0
  alloc := some fun _ => 0xAA
  scratch := fun _ => 0xAA
  cryptoBoxSeal message publicKey :=
    if coordinate publicKey ∈ smallOrder then (-1, [])
    else (0, List.replicate cryptoBoxSealBytes 0 ++ message)
  base642bin padded maxLen b64 :=
    match decodePrefix padded b64 with
    | none => ⟨-1, [], 0, some 0⟩
    | some (out, stop) =>
      if out.length ≤ maxLen then ⟨0, out, out.length, some stop⟩
      else ⟨-1, out.take maxLen, 0, some stop⟩
  bin2base64 maxLen bin :=
    if (encode true bin).length < maxLen then
      (encode true bin ++ [0], some (textOf bin))
    else ([], none)

theorem referenceSodium_follows : FollowsLibsodium referenceSodium where
  decode_ok padded maxLen b64 out stop hdecode hlen := by
    simp only [referenceSodium, hdecode, if_pos hlen]
  decode_fail padded maxLen b64 hfail := by
    cases hdecode : decodePrefix padded b64 with
    | none => simp [referenceSodium, hdecode]
    | some r =>
      have hlt := hfail r.1 r.2 hdecode
      simp [referenceSodium, hdecode, Nat.not_le.2 hlt]
  encode_ok maxLen bin hlen := ⟨[], _, if_pos hlen, rfl⟩

theorem referenceSodium_seals {message publicKey : Bytes}
    (h : Seals referenceSodium message publicKey) :
    (referenceSodium.cryptoBoxSeal message publicKey).2 =
      List.replicate cryptoBoxSealBytes 0 ++ message := by
  simp only [Seals, referenceSodium] at h ⊢
  split_ifs at h ⊢
  · exact absurd h (by decide)
  · rfl

theorem referenceSodium_inverts : BoxSealInverts referenceSodium (fun _ _ => True)
    (fun ciphertext _ _ => some (ciphertext.drop cryptoBoxSealBytes)) where
  length _ _ h := by
    rw [referenceSodium_seals h, List.length_append, List.length_replicate, Nat.add_comm]
  opens _ _ _ h _ := by rw [referenceSodium_seals h, List.drop_left' List.length_replicate]

def sampleKey : Bytes :=
  [133, 32, 240, 9, 137, 48, 167, 84, 116, 139, 125, 220, 180, 62, 247, 90, 13, 191, 58, 13, 38, 56,
    26, 244, 235, 164, 169, 142, 170, 155, 78, 106]

def sampleSecretKey : Bytes :=
  [119, 7, 109, 10, 115, 24, 165, 125, 60, 22, 193, 114, 81, 178, 102, 69, 223, 76, 47, 135, 235, 192,
    153, 42, 177, 119, 251, 165, 29, 185, 44, 42]

def sampleKeyText : CString := textOf sampleKey

theorem sampleKeyText_isKeyText : IsKeyText sampleKeyText.bytes sampleKey := ⟨rfl, .inl rfl⟩

theorem sampleKey_ordinary : coordinate sampleKey ∉ smallOrder := by decide

theorem sampleKey_seals (message : Bytes) : Seals referenceSodium message sampleKey := by
  simp only [Seals, referenceSodium, if_neg sampleKey_ordinary]

theorem decodePublicKey_correct_sample :
    decodePublicKey .w64 referenceSodium sampleKeyText.bytes (List.replicate 32 0xAA) =
      (true, sampleKey) :=
  ((decodePublicKey_correct .w64 referenceSodium referenceSodium_follows sampleKeyText.bytes
    (List.replicate 32 0xAA) (by decide)).1 _).2 ⟨by decide, .inl ⟨by decide, rfl⟩⟩

theorem saltSealBase64_roundTrip_hi : ∃ buffer ciphertext,
    (saltSealBase64 .w64 referenceSodium (some (ascii "hi")) (some sampleKeyText)
      (some (List.replicate 69 0xAA)) (some 7) none).output = some buffer ∧
    (cstr buffer).length = 68 ∧
    decodePrefix true (cstr buffer) = some (ciphertext, 68) ∧ ciphertext.drop 48 = ascii "hi" := by
  obtain ⟨hiff, -, hok⟩ := saltSealBase64_roundTrip .w64 referenceSodium referenceSodium_follows
    (by decide) (by simp [referenceSodium]) _ _ referenceSodium_inverts (ascii "hi") sampleKeyText
    ((sealsText_iff sampleKeyText_isKeyText).2 (sampleKey_seals _)) (List.replicate 69 0xAA)
    (some 7) none
  have hst := hiff.2 ⟨by decide, by decide, ⟨_, sampleKeyText_isKeyText⟩, by decide⟩
  obtain ⟨buffer, ciphertext, hout, -, -, hlen, hdecode, -, hopen⟩ := hok hst
  rw [hlen] at hdecode
  refine ⟨buffer, ciphertext, hout, hlen, hdecode, ?_⟩
  exact Option.some.inj (hopen _ [] sampleKeyText_isKeyText trivial)

end Salt.SealingCorrect
