import Salt.RoundtripHelper
import Salt.ArgvEndToEnd

set_option autoImplicit false

/-!
# What the round-trip helper prints and what it leaves behind

A decryption prints the message just when the three texts are what they should
be and the box opens. What either command leaves in memory is wiped.
-/
namespace Salt.RoundtripHelperCorrect
open ByteStrings BlockHeap Base64Text TracedState Sealing SealingCorrect StreamFacts RoundtripHelper

section Decoding
variable {sodium : Sodium} {text : Bytes} {n : ℕ}

theorem decode_encoded (h : FollowsLibsodium sodium) {out : Bytes} (hlen : out.length ≤ n) :
    sodium.base642bin true n (encode true out) =
      ⟨0, out, out.length, some (encode true out).length⟩ :=
  h.decode_ok true n _ out _ ((decodePrefix_all_iff true _ _).2 rfl) hlen

/-- A decoding that is complete is that of an encoded text. -/
theorem encoded_of_decode (h : FollowsLibsodium sodium)
    (hret : (sodium.base642bin true n text).ret = 0)
    (hstop : (sodium.base642bin true n text).stop = some text.length) :
    ∃ out, text = encode true out ∧ out.length ≤ n ∧
      sodium.base642bin true n text = ⟨0, out, out.length, some text.length⟩ := by
  cases hdecode : decodePrefix true text with
  | none =>
    have hno := h.decode_fail true n text fun out stop hd => by
      rw [hdecode] at hd
      cases hd
    exact absurd hret hno
  | some r =>
    obtain ⟨out, stop⟩ := r
    by_cases hlen : out.length ≤ n
    · have hr := h.decode_ok true n text out stop hdecode hlen
      rw [hr] at hstop
      obtain rfl : stop = text.length := Option.some.inj hstop
      exact ⟨out, (decodePrefix_all_iff true _ _).1 hdecode, hlen, hr⟩
    · have hno := h.decode_fail true n text fun out' stop' hd => by
        rw [hdecode] at hd
        cases hd
        exact not_le.1 hlen
      exact absurd hret hno

theorem decodeFault_none_iff (h : FollowsLibsodium sodium) (label : Bytes) :
    decodeFault label (sodium.base642bin true n text) text.length n = none ↔
      ∃ out, text = encode true out ∧ out.length = n := by
  unfold decodeFault
  constructor
  · intro hnone
    split_ifs at hnone with hret hstop hlen
    obtain ⟨out, htext, -, hr⟩ := encoded_of_decode h (not_not.1 hret) (not_not.1 hstop)
    refine ⟨out, htext, ?_⟩
    rw [hr] at hlen
    exact not_not.1 hlen
  · rintro ⟨out, rfl, rfl⟩
    rw [decode_encoded h le_rfl]
    simp

end Decoding

theorem encode_inj {a b : Bytes} (h : encode true a = encode true b) : a = b := by
  have ha := (decodePrefix_all_iff true (encode true a) a).2 rfl
  rw [h, (decodePrefix_all_iff true (encode true b) b).2 rfl] at ha
  exact (Prod.mk.inj (Option.some.inj ha)).1.symm

/-- `crypto_box_seal_open` takes the overhead off a ciphertext. -/
def OpensShorter (cryptoBoxSealOpen : Bytes → Bytes → Bytes → Option Bytes) : Prop :=
  ∀ ciphertext publicKey secretKey message,
    cryptoBoxSealOpen ciphertext publicKey secretKey = some message →
      ciphertext.length = message.length + cryptoBoxSealBytes

structure Opens (env : HelperEnv) (publicKey secretKey text message : Bytes) : Prop where
  box : ∃ ciphertext, text = encode true ciphertext ∧
    env.cryptoBoxSealOpen ciphertext publicKey secretKey = some message

def Allocates (env : HelperEnv) : Prop := env.malloc 0 ≠ none ∧ env.malloc 1 ≠ none

def withPrinted (message : Bytes) (s : OutStream) : OutStream :=
  if message = [] then s else (s.write message).2

def Prints (message : Bytes) (s : OutStream) : Prop := message = [] ∨ (s.write message).1 = true

/-- How a decryption ends, by the streams: the message is written, or nothing is. -/
inductive Decided (env : HelperEnv) (opens : Bytes → Prop) (s : OutStream) (rc : ℤ) (s' : OutStream) :
    Prop where
  | printed (message : Bytes) (hopens : opens message) (halloc : Allocates env)
      (hrc : rc = 0 ↔ Prints message s) (hout : s' = withPrinted message s)
  | withheld (hrc : rc ≠ 0) (hout : s' = s) (hno : ∀ message, opens message → ¬ Allocates env)

section Opening
variable {env : HelperEnv} {publicKey : Bytes} {ciphertextB64 : CString} {p : Process}

theorem complain_withheld {opens : Bytes → Prop} {s : OutStream} (text : Bytes)
    (hs : p.stdout = s) (hno : ∀ message, opens message → ¬ Allocates env) :
    Ends (complain text) p fun rc p' => Decided env opens s rc p'.stdout :=
  .withheld Int.one_ne_zero hs hno

theorem take_fill {size : ℕ} {data : Bytes} (b : Block) (h : data.length ≤ size) :
    (fill size data b).bytes.take data.length = data := by
  change (overwrite b.bytes (data.take size)).take data.length = data
  rw [List.take_of_length_le h, overwrite, List.take_left]

theorem le_encode_length (out : Bytes) : out.length ≤ (encode true out).length := by
  rw [encode_length_padded]
  omega

theorem update_ends {f : Process → Process} {β : Type} {k : Unit → Helper β}
    {Q : β → Process → Prop} (h : Ends (k ()) (f p) Q) : Ends (Traced.update f >>= k) p Q := h

theorem Opens.unique {secretKey text message ciphertext : Bytes}
    (h : Opens env publicKey secretKey text message) (htext : text = encode true ciphertext) :
    env.cryptoBoxSealOpen ciphertext publicKey secretKey = some message := by
  obtain ⟨c, hc, hopen⟩ := h.box
  rw [encode_inj (htext.symm.trans hc)]
  exact hopen

theorem openCiphertext_decided (hf : FollowsLibsodium env.sodium)
    (hshorter : OpensShorter env.cryptoBoxSealOpen) (publicKey : Bytes) (ciphertextB64 : CString)
    (p : Process) :
    Ends (openCiphertext env publicKey ciphertextB64) p fun rc p' => Decided env
      (Opens env publicKey p.secretKey.bytes ciphertextB64.bytes) p.stdout rc p'.stdout := by
  refine .ite (fun hshort => ?_) fun hlong => ?_
  · refine complain_withheld _ rfl fun message hopens => ?_
    obtain ⟨c, hc, hopen⟩ := hopens.box
    have hlen := hshorter _ _ _ _ hopen
    have hcode := encode_length_padded c
    rw [hc] at hshort
    omega
  cases hmalloc : env.malloc 0 with
  | none => exact complain_withheld _ rfl fun message _ halloc => halloc.1 hmalloc
  | some content =>
  refine update_ends (update_ends ?_)
  have hdecode (c : Bytes) (hc : ciphertextB64.bytes = encode true c) :
      env.sodium.base642bin true ciphertextB64.bytes.length ciphertextB64.bytes =
        ⟨0, c, c.length, some ciphertextB64.bytes.length⟩ := by
    rw [hc]
    exact decode_encoded hf (le_encode_length c)
  refine .ite (fun hret => ?_) fun hret => .ite (fun hstop => ?_) fun hstop => ?_
  · refine complain_withheld _ rfl fun message hopens => ?_
    obtain ⟨c, hc, -⟩ := hopens.box
    rw [hdecode c hc] at hret
    exact absurd rfl hret
  · refine complain_withheld _ rfl fun message hopens => ?_
    obtain ⟨c, hc, -⟩ := hopens.box
    rw [hdecode c hc] at hstop
    exact absurd rfl hstop
  obtain ⟨out, hout, hlen, hr⟩ := encoded_of_decode hf (not_not.1 hret) (not_not.1 hstop)
  rw [hr]
  refine .ite (fun hsmall => ?_) fun hlarge => ?_
  · refine complain_withheld _ rfl fun message hopens => ?_
    have := hshorter _ _ _ _ (hopens.unique hout)
    change out.length < _ at hsmall
    omega
  cases hmalloc' : env.malloc 1 with
  | none => exact complain_withheld _ rfl fun message _ halloc => halloc.2 hmalloc'
  | some content' =>
  refine update_ends (Ends.bind_read (a := out) (take_fill _ hlen)
    (Ends.bind_read (a := p.secretKey.bytes) rfl ?_))
  cases hopen : env.cryptoBoxSealOpen out publicKey p.secretKey.bytes with
  | none =>
    refine complain_withheld _ rfl fun message hopens => ?_
    rw [hopens.unique hout] at hopen
    cases hopen
  | some message =>
  have hopens : Opens env publicKey p.secretKey.bytes ciphertextB64.bytes message :=
    ⟨out, hout, hopen⟩
  have halloc : Allocates env := ⟨by simp [hmalloc], by simp [hmalloc']⟩
  have hsub : out.length - cryptoBoxSealBytes = message.length := by
    have := hshorter _ _ _ _ hopen
    omega
  simp only [hsub]
  refine update_ends (.ite (fun hzero => ?_) fun hpos => ?_)
  · obtain rfl : message = [] := List.length_eq_zero_iff.1 hzero
    exact .ret (.printed [] hopens halloc ⟨fun _ => .inl rfl, fun _ => rfl⟩ rfl)
  · have hne : message ≠ [] := fun h => hpos (by rw [h]; rfl)
    refine Ends.bind_read (a := message) (take_fill _ le_rfl) ?_
    have hprinted : withPrinted message p.stdout = (p.stdout.write message).2 := if_neg hne
    have hprints : Prints message p.stdout ↔ (p.stdout.write message).1 = true :=
      or_iff_right hne
    refine Ends.bind (R := fun ok p' => ok = (p.stdout.write message).1 ∧
      p'.stdout = (p.stdout.write message).2) ⟨rfl, rfl⟩ fun ok p' ⟨hok, hp'⟩ => .ite (fun hfail => ?_)
      fun hdone => ?_
    · refine Ends.mono (R := fun rc p'' => rc = 1 ∧ p''.stdout = p'.stdout) ⟨rfl, rfl⟩
        fun rc p'' ⟨hrc, hp''⟩ => .printed message hopens halloc ?_ ?_
      · rw [hrc, hprints, ← hok]
        simpa using hfail
      · rw [hp'', hp', hprinted]
    · refine .ret (.printed message hopens halloc ?_ ?_)
      · rw [hprints, ← hok]
        simpa using hdone
      · rw [hp', hprinted]

end Opening

/-- The arguments give the texts of a key pair and of a box that opens to the message under it. -/
structure Decrypts (env : HelperEnv) (args : List CString) (message : Bytes) : Prop where
  texts : ∃ pub sec ct publicKey secretKey,
    decryptArgs args ⟨none, none, none⟩ = .ok ⟨some pub, some sec, some ct⟩ ∧
    (pub.bytes = encode true publicKey ∧ publicKey.length = cryptoBoxPublicKeyBytes) ∧
    (sec.bytes = encode true secretKey ∧ secretKey.length = cryptoBoxSecretKeyBytes) ∧
    Opens env publicKey secretKey ct.bytes message

section Decrypting
variable {env : HelperEnv} {p : Process}

theorem reportDecoded_ends (label : Bytes) (r : DecodeOutcome) (inputLen outLen : ℕ) (p : Process) :
    Ends (reportDecoded label r inputLen outLen) p fun rc p' =>
      (rc = 0 ∧ p' = p ∧ decodeFault label r inputLen outLen = none) ∨
      (rc ≠ 0 ∧ p'.stdout = p.stdout ∧ decodeFault label r inputLen outLen ≠ none) := by
  unfold reportDecoded
  cases hfault : decodeFault label r inputLen outLen with
  | none => exact .inl ⟨rfl, rfl, rfl⟩
  | some text => exact .inr ⟨Int.one_ne_zero, rfl, Option.some_ne_none text⟩

theorem fill_whole {n : ℕ} {data : Bytes} {b : Block} (hb : b.bytes.length = n)
    (hdata : data.length = n) : (fill n data b).bytes = data := by
  change overwrite b.bytes (data.take n) = data
  rw [List.take_of_length_le hdata.le, overwrite, List.drop_of_length_le (by omega), List.append_nil]

theorem decryptBody_decided (hf : FollowsLibsodium env.sodium)
    (hshorter : OpensShorter env.cryptoBoxSealOpen) (args : List CString)
    (hp : p.secretKey.bytes.length = cryptoBoxSecretKeyBytes) :
    Ends (decryptBody env args) p fun rc p' =>
      Decided env (Decrypts env args) p.stdout rc p'.stdout := by
  unfold decryptBody
  split
  · next text hargs =>
    refine complain_withheld _ rfl fun message hd => ?_
    obtain ⟨_, _, _, _, _, hok, -⟩ := hd.texts
    rw [hargs] at hok
    cases hok
  · next pub sec ct hargs =>
    have hgiven {message : Bytes} (hd : Decrypts env args message) : ∃ publicKey secretKey,
        (pub.bytes = encode true publicKey ∧ publicKey.length = cryptoBoxPublicKeyBytes) ∧
        (sec.bytes = encode true secretKey ∧ secretKey.length = cryptoBoxSecretKeyBytes) ∧
        Opens env publicKey secretKey ct.bytes message := by
      obtain ⟨_, _, _, publicKey, secretKey, hok, h⟩ := hd.texts
      rw [hargs] at hok
      cases hok
      exact ⟨publicKey, secretKey, h⟩
    refine (reportDecoded_ends _ _ _ _ p).bind fun rc p₁ hrc => ?_
    rcases hrc with ⟨rfl, rfl, hnone⟩ | ⟨hrc, hout, hsome⟩
    swap
    · rw [if_pos hrc]
      refine .ret (.withheld Int.one_ne_zero hout fun message hd => ?_)
      obtain ⟨publicKey, _, hpub, -⟩ := hgiven hd
      exact absurd ((decodeFault_none_iff hf _).2 ⟨publicKey, hpub⟩) hsome
    rw [if_neg (by simp)]
    obtain ⟨publicKey, hpub, hpublen⟩ := (decodeFault_none_iff hf _).1 hnone
    have hpubbin : (env.sodium.base642bin true cryptoBoxPublicKeyBytes pub.bytes).bin = publicKey := by
      rw [hpub, decode_encoded hf hpublen.le]
    have hput : put (fresh env.scratch cryptoBoxPublicKeyBytes)
        (env.sodium.base642bin true cryptoBoxPublicKeyBytes pub.bytes).bin = publicKey := by
      rw [hpubbin]
      exact put_whole (by rw [hpublen, fresh_length])
    refine update_ends ((reportDecoded_ends _ _ _ _ _).bind fun rc p₂ hrc => ?_)
    rcases hrc with ⟨rfl, rfl, hnone⟩ | ⟨hrc, hout, hsome⟩
    swap
    · rw [if_pos hrc]
      refine .ret (.withheld Int.one_ne_zero hout fun message hd => ?_)
      obtain ⟨_, secretKey, -, hsec, -⟩ := hgiven hd
      exact absurd ((decodeFault_none_iff hf _).2 ⟨secretKey, hsec⟩) hsome
    rw [if_neg (by simp), hput]
    obtain ⟨secretKey, hsec, hseclen⟩ := (decodeFault_none_iff hf _).1 hnone
    have hkey : (fill cryptoBoxSecretKeyBytes (env.sodium.base642bin true cryptoBoxSecretKeyBytes
        sec.bytes).bin p₁.secretKey).bytes = secretKey := by
      rw [hsec, decode_encoded hf hseclen.le]
      exact fill_whole hp hseclen
    refine (openCiphertext_decided hf hshorter publicKey ct _).mono fun rc p₃ hdecided => ?_
    simp only [hkey] at hdecided
    cases hdecided with
    | printed message hopens halloc hrc hout =>
      exact .printed message ⟨_, _, _, _, _, hargs, ⟨hpub, hpublen⟩, ⟨hsec, hseclen⟩, hopens⟩
        halloc hrc hout
    | withheld hrc hout hno =>
      refine .withheld hrc hout fun message hd => hno message ?_
      obtain ⟨publicKey', secretKey', hpub', hsec', hopens⟩ := hgiven hd
      rw [encode_inj (hpub.symm.trans hpub'.1), encode_inj (hsec.symm.trans hsec'.1)]
      exact hopens
  · next o hno hargs =>
    refine complain_withheld _ rfl fun message hd => ?_
    obtain ⟨pub, sec, ct, _, _, hok, -⟩ := hd.texts
    rw [hargs] at hok
    exact absurd (Except.ok.inj hok) (hno pub sec ct)

theorem decryptCleanup_stdout (p : Process) : (decryptCleanup p).final.stdout = p.stdout := rfl

theorem commandDecrypt_decided (hf : FollowsLibsodium env.sodium)
    (hshorter : OpensShorter env.cryptoBoxSealOpen) (args : List CString)
    (hp : p.secretKey.bytes.length = cryptoBoxSecretKeyBytes) :
    Ends (commandDecrypt env args) p fun rc p' =>
      Decided env (Decrypts env args) p.stdout rc p'.stdout :=
  (decryptBody_decided hf hshorter args hp).bind fun _ p₁ h =>
    Ends.bind (R := fun (_ : Unit) (p' : Process) => p'.stdout = p₁.stdout)
      (decryptCleanup_stdout p₁) fun _ _ hout => .ret (hout ▸ h)

theorem Decrypts.unique {args : List CString} {message message' : Bytes}
    (h : Decrypts env args message) (h' : Decrypts env args message') : message = message' := by
  obtain ⟨pub, sec, ct, pk, sk, hargs, hpub, hsec, c, hc, hopen⟩ := h.texts
  obtain ⟨_, _, _, pk', sk', hargs', hpub', hsec', hopens'⟩ := h'.texts
  cases hargs.symm.trans hargs'
  obtain rfl := encode_inj (hpub.1.symm.trans hpub'.1)
  obtain rfl := encode_inj (hsec.1.symm.trans hsec'.1)
  exact Option.some.inj (hopen.symm.trans (hopens'.unique hc))

/-- A decryption succeeds just when the texts are exact, the box opens and no call fails. Nothing but
the message it opens to is ever printed, and nothing at all where there is none. -/
theorem commandDecrypt_exact (env : HelperEnv) (args : List CString) (p : Process)
    (hf : FollowsLibsodium env.sodium) (hshorter : OpensShorter env.cryptoBoxSealOpen)
    (hp : p.secretKey.bytes.length = cryptoBoxSecretKeyBytes) :
    let r := commandDecrypt env args p
    (r.value = 0 ↔ Allocates env ∧ ∃ message, Decrypts env args message ∧ Prints message p.stdout) ∧
    (∀ message, Decrypts env args message →
      (Allocates env → r.final.stdout = withPrinted message p.stdout) ∧
      (¬ Allocates env → r.final.stdout = p.stdout)) ∧
    ((∀ message, ¬ Decrypts env args message) → r.final.stdout = p.stdout) := by
  intro r
  have h : Decided env (Decrypts env args) p.stdout r.value r.final.stdout :=
    commandDecrypt_decided hf hshorter args hp
  cases h with
  | printed message hopens halloc hrc hout =>
    refine ⟨hrc.trans ⟨fun hprints => ⟨halloc, message, hopens, hprints⟩, fun ⟨_, m, hm, hprints⟩ =>
      hopens.unique hm ▸ hprints⟩, fun m hm => ⟨fun _ => hopens.unique hm ▸ hout, fun hno =>
      absurd halloc hno⟩, fun hno => absurd hopens (hno message)⟩
  | withheld hrc hout hno =>
    exact ⟨⟨fun h0 => absurd h0 hrc, fun ⟨halloc, m, hm, _⟩ => absurd halloc (hno m hm)⟩,
      fun m hm => ⟨fun halloc => absurd halloc (hno m hm), fun _ => hout⟩, fun _ => hout⟩

end Decrypting

def SamplePair (publicKey secretKey : Bytes) : Prop :=
  publicKey = sampleKey ∧ secretKey = sampleSecretKey

instance (publicKey secretKey : Bytes) : Decidable (SamplePair publicKey secretKey) :=
  inferInstanceAs (Decidable (_ ∧ _))

/-- The reference cipher, which keeps its overhead in front of the message. -/
def referenceHelper : HelperEnv where
  sodium := referenceSodium
  keypair := (0, sampleKey, sampleSecretKey)
  cryptoBoxSealOpen ciphertext publicKey secretKey :=
    if cryptoBoxSealBytes ≤ ciphertext.length ∧ SamplePair publicKey secretKey then
      some (ciphertext.drop cryptoBoxSealBytes)
    else none
  malloc _ := some fun _ => 0xAA
  scratch _ := 0xAA

theorem referenceHelper_shorter : OpensShorter referenceHelper.cryptoBoxSealOpen := by
  intro ciphertext _ _ message h
  simp only [referenceHelper] at h
  split_ifs at h with hopens
  obtain rfl := Option.some.inj h
  have hlen := hopens.1
  rw [List.length_drop]
  omega

theorem referenceHelper_allocates : Allocates referenceHelper := by
  simp [Allocates, referenceHelper]

def sampleCiphertext : Bytes := (referenceSodium.cryptoBoxSeal (ascii "hi") sampleKey).2

/-- `--public-key PUB_B64 --secret-key SEC_B64 --ciphertext CIPHERTEXT_B64`. -/
def decryptWords (publicKeyB64 secretKeyB64 ciphertextB64 : CString) : List CString :=
  [.ofAscii "--public-key", publicKeyB64, .ofAscii "--secret-key", secretKeyB64,
    .ofAscii "--ciphertext", ciphertextB64]

def sampleDecryptArgs : List CString :=
  decryptWords sampleKeyText (textOf sampleSecretKey) (textOf sampleCiphertext)

theorem sampleDecryptArgs_decrypts : Decrypts referenceHelper sampleDecryptArgs (ascii "hi") := by
  refine ⟨_, _, _, sampleKey, sampleSecretKey, rfl, ⟨rfl, rfl⟩, ⟨rfl, rfl⟩, sampleCiphertext, rfl, ?_⟩
  rw [sampleCiphertext, referenceSodium_seals (sampleKey_seals _)]
  rfl

theorem commandDecrypt_exact_sample :
    let r := commandDecrypt referenceHelper sampleDecryptArgs
      (startProcess (fun _ => 0) emptyOutStream emptyOutStream)
    r.value = 0 ∧ r.final.stdout = (emptyOutStream.write (ascii "hi")).2 := by
  obtain ⟨hiff, hprinted, -⟩ := commandDecrypt_exact referenceHelper sampleDecryptArgs
    (startProcess (fun _ => 0) emptyOutStream emptyOutStream) referenceSodium_follows
    referenceHelper_shorter (fresh_length ..)
  refine ⟨hiff.2 ⟨referenceHelper_allocates, _, sampleDecryptArgs_decrypts, .inr ?_⟩,
    (hprinted _ sampleDecryptArgs_decrypts).1 referenceHelper_allocates⟩
  decide

/-- While a command works: the buffers are whole, and no block has been released. -/
structure Working (env : HelperEnv) (p : Process) : Prop where
  secretKey : p.secretKey.bytes.length = cryptoBoxSecretKeyBytes
  secretKeyB64 : p.secretKeyB64.bytes.length = keyTextSize
  ciphertext : ∀ b ∈ p.ciphertext, ∃ n content, b.size = n + 1 ∧ b.bytes.length = n + 1 ∧
    b.events = [] ∧ env.malloc 0 = some content ∧ b.bytes.drop n = [content n]
  plaintext : ∀ b ∈ p.plaintext, b.Live b.size

/-- Behind a decryption: the key is zero, the message was wiped and freed, and of the block of the
ciphertext only the byte that was never written was left when it was freed. -/
structure Cleared (env : HelperEnv) (p : Process) : Prop where
  secretKey : p.secretKey.bytes = List.replicate cryptoBoxSecretKeyBytes 0
  ciphertext : ∀ b ∈ p.ciphertext, ∃ n content, b.size = n + 1 ∧ env.malloc 0 = some content ∧
    b.events = [.wipe n, .free (List.replicate n 0 ++ [content n])]
  plaintext : ∀ b ∈ p.plaintext, b.Disposed

section Memory
variable {env : HelperEnv} {p : Process}

theorem startProcess_working (scratch : ℕ → UInt8) (stdout stderr : OutStream) :
    Working env (startProcess scratch stdout stderr) where
  secretKey := fresh_length ..
  secretKeyB64 := fresh_length ..
  ciphertext b hb := (Option.not_mem_none b hb).elim
  plaintext b hb := (Option.not_mem_none b hb).elim

theorem fill_length {n : ℕ} {data : Bytes} {b : Block} (h : n ≤ b.bytes.length) :
    (fill n data b).bytes.length = b.bytes.length :=
  overwrite_length ((List.length_take_le _ _).trans h)

theorem fill_drop (n : ℕ) (data : Bytes) (b : Block) :
    (fill n data b).bytes.drop n = b.bytes.drop n := by
  change (overwrite b.bytes (data.take n)).drop n = b.bytes.drop n
  have hle := List.length_take_le n data
  rw [overwrite, List.drop_append, List.drop_of_length_le hle, List.nil_append, List.drop_drop]
  congr 1
  omega

theorem Working.complain (h : Working env p) (text : Bytes) :
    Ends (RoundtripHelper.complain text) p fun _ p' => Working env p' :=
  ⟨h.secretKey, h.secretKeyB64, h.ciphertext, h.plaintext⟩

theorem Working.editSecretKey (h : Working env p) (data : Bytes) :
    Working env { p with secretKey := fill cryptoBoxSecretKeyBytes data p.secretKey } :=
  ⟨(fill_length h.secretKey.ge).trans h.secretKey, h.secretKeyB64, h.ciphertext, h.plaintext⟩

theorem Working.withCiphertext (h : Working env p) {content : ℕ → UInt8}
    (hmalloc : env.malloc 0 = some content) (n : ℕ) (data : Bytes) :
    Working env { p with ciphertext := some (fill n data ⟨n + 1, fresh content (n + 1), []⟩) } := by
  refine ⟨h.secretKey, h.secretKeyB64, fun b hb => ?_, h.plaintext⟩
  obtain rfl := Option.some.inj hb
  have hlen : (fresh content (n + 1)).length = n + 1 := fresh_length ..
  refine ⟨n, content, rfl, (fill_length ?_).trans hlen, rfl, hmalloc, (fill_drop ..).trans ?_⟩
  · exact n.le_succ.trans hlen.ge
  · simp [fresh, List.range_succ]

theorem Working.withPlaintext (h : Working env p) (content : ℕ → UInt8) {n size : ℕ} (hn : n ≤ size)
    (hsize : 0 < size) (data : Bytes) :
    Working env { p with plaintext := some (fill n data ⟨size, fresh content size, []⟩) } := by
  refine ⟨h.secretKey, h.secretKeyB64, h.ciphertext, fun b hb => ?_⟩
  obtain rfl := Option.some.inj hb
  have hlen : (fresh content size).length = size := fresh_length ..
  exact ⟨rfl, (fill_length (hn.trans hlen.ge)).trans hlen, hsize, rfl⟩

theorem openCiphertext_working (h : Working env p) (publicKey : Bytes) (ciphertextB64 : CString) :
    Ends (openCiphertext env publicKey ciphertextB64) p fun _ p' => Working env p' := by
  refine .ite (fun _ => h.complain _) fun _ => ?_
  cases hmalloc : env.malloc 0 with
  | none => exact h.complain _
  | some content =>
  set r := env.sodium.base642bin true ciphertextB64.bytes.length ciphertextB64.bytes with hr
  have h₁ := h.withCiphertext hmalloc ciphertextB64.bytes.length r.bin
  refine update_ends (update_ends (.ite (fun _ => h₁.complain _) fun _ =>
    .ite (fun _ => h₁.complain _) fun _ => .ite (fun _ => h₁.complain _) fun _ => ?_))
  cases hmalloc' : env.malloc 1 with
  | none => exact h₁.complain _
  | some content' =>
  set n := r.binLen - cryptoBoxSealBytes with hn
  have hsize : 0 < if n = 0 then 1 else n := by split_ifs <;> omega
  have hle : n ≤ if n = 0 then 1 else n := by split_ifs <;> omega
  refine update_ends (Ends.bind_read rfl (Ends.bind_read rfl ?_))
  generalize env.cryptoBoxSealOpen _ publicKey _ = opened
  cases opened with
  | none =>
    have h₂ : Working env { p with
        ciphertext := some (fill ciphertextB64.bytes.length r.bin ⟨ciphertextB64.bytes.length + 1,
          fresh content (ciphertextB64.bytes.length + 1), []⟩)
        plaintext := some ⟨if n = 0 then 1 else n, fresh content' (if n = 0 then 1 else n), []⟩ } :=
      h₁.withPlaintext content' (Nat.zero_le _) hsize []
    exact h₂.complain _
  | some message =>
    have h₂ := h₁.withPlaintext content' hle hsize message
    refine update_ends (.ite (fun _ => .ret h₂) fun _ => Ends.bind_read rfl ?_)
    refine Ends.bind (R := fun (_ : Bool) p' => Working env p')
      ⟨h₂.secretKey, h₂.secretKeyB64, h₂.ciphertext, h₂.plaintext⟩ fun ok p' h₃ => ?_
    exact .ite (fun _ => h₃.complain _) fun _ => .ret h₃

theorem reportDecoded_working (h : Working env p) (label : Bytes) (r : DecodeOutcome)
    (inputLen outLen : ℕ) : Ends (reportDecoded label r inputLen outLen) p fun _ p' =>
      Working env p' := by
  unfold reportDecoded
  split
  · exact h.complain _
  · exact h

theorem decryptBody_working (h : Working env p) (args : List CString) :
    Ends (decryptBody env args) p fun _ p' => Working env p' := by
  unfold decryptBody
  split
  · exact h.complain _
  · refine (reportDecoded_working h _ _ _ _).bind fun rc p₁ h₁ => .ite (fun _ => .ret h₁)
      fun _ => update_ends ?_
    exact (reportDecoded_working (h₁.editSecretKey _) _ _ _ _).bind fun rc p₂ h₂ =>
      .ite (fun _ => .ret h₂) fun _ => openCiphertext_working h₂ _ _
  · exact h.complain _

theorem wipe_secretKey (h : Working env p) :
    (p.secretKey.wipe cryptoBoxSecretKeyBytes).bytes = List.replicate cryptoBoxSecretKeyBytes 0 := by
  rw [wipe_all h.secretKey]

theorem decryptCleanup_cleared (h : Working env p) :
    Ends decryptCleanup p fun _ p' => Cleared env p' := by
  refine ⟨wipe_secretKey h, fun b hb => ?_, fun b hb => ?_⟩
  · obtain ⟨b₀, hb₀, rfl⟩ := Option.map_eq_some_iff.1 hb
    obtain ⟨n, content, hsize, hlen, hevents, hmalloc, hlast⟩ := h.ciphertext b₀ hb₀
    refine ⟨n, content, hsize, hmalloc, ?_⟩
    have hn : b₀.size - 1 = n := by omega
    have hmin : min n b₀.bytes.length = n := by omega
    simp only [Block.free, Block.wipe, hn, hevents, hlast, hmin, List.nil_append,
      List.singleton_append]
  · obtain ⟨b₀, hb₀, rfl⟩ := Option.map_eq_some_iff.1 hb
    exact (disposed_of_live (h.plaintext b₀ hb₀)).1

theorem commandDecrypt_cleared (h : Working env p) (args : List CString) :
    Ends (commandDecrypt env args) p fun _ p' => Cleared env p' :=
  (decryptBody_working h args).bind fun _ _ h₁ => (decryptCleanup_cleared h₁).bind
    fun _ _ hcleared => .ret hcleared

theorem printKeys_working (h : Working env p) (publicKeyB64 secretKeyB64 : Bytes) :
    Ends (printKeys publicKeyB64 secretKeyB64) p fun _ p' => Working env p' := by
  have hwrite {p : Process} (h : Working env p) (data : Bytes) :
      Ends (writeStdout data) p fun _ p' => Working env p' :=
    ⟨h.secretKey, h.secretKeyB64, h.ciphertext, h.plaintext⟩
  refine (hwrite h _).bind fun _ _ h₁ => .ite (fun _ => .ret h₁) fun _ => ?_
  refine (hwrite h₁ _).bind fun _ _ h₂ => .ite (fun _ => .ret h₂) fun _ => ?_
  exact (hwrite h₂ _).bind fun _ _ h₃ => .ite (fun _ => .ret h₃) fun _ => hwrite h₃ _

theorem encodeKeys_working (h : Working env p) (publicKey : Bytes) :
    Ends (encodeKeys env publicKey) p fun _ p' => Working env p' := by
  refine .ite (fun _ => h.complain _) fun _ => Ends.bind_read rfl (update_ends ?_)
  set text := fill keyTextSize (env.sodium.bin2base64 keyTextSize p.secretKey.bytes).1 p.secretKeyB64
  have h₁ : Working env { p with secretKeyB64 := text } :=
    ⟨h.secretKey, (fill_length h.secretKeyB64.ge).trans h.secretKeyB64, h.ciphertext, h.plaintext⟩
  refine .ite (fun _ => h₁.complain _) fun _ => Ends.bind_read rfl ?_
  exact (printKeys_working h₁ _ _).bind fun _ _ h₂ => .ite (fun _ => h₂.complain _) fun _ => .ret h₂

theorem commandKeygen_cleared (h : Working env p) (hpair : env.keypair.1 = 0) :
    Ends (commandKeygen env) p fun _ p' =>
      p'.secretKey.bytes = List.replicate cryptoBoxSecretKeyBytes 0 ∧
        p'.secretKeyB64.bytes = List.replicate keyTextSize 0 := by
  refine update_ends (.ite (fun hne => absurd hpair hne) fun _ => ?_)
  refine (encodeKeys_working (h.editSecretKey _) _).bind fun _ p₁ h₁ => ?_
  have hkey := wipe_secretKey h₁
  refine update_ends (update_ends (.ret ⟨hkey, ?_⟩))
  change (p₁.secretKeyB64.wipe keyTextSize).bytes = _
  rw [wipe_all h₁.secretKeyB64]

/-- Whatever libsodium, the allocator and the streams do, neither command leaves a secret behind; only
a key pair that could not be made is not wiped. -/
theorem commands_cleared (env : HelperEnv) (args : List CString) (scratch : ℕ → UInt8)
    (stdout stderr : OutStream) :
    Cleared env (commandDecrypt env args (startProcess scratch stdout stderr)).final ∧
    (env.keypair.1 = 0 →
      (commandKeygen env (startProcess scratch stdout stderr)).final.secretKey.bytes =
        List.replicate cryptoBoxSecretKeyBytes 0 ∧
      (commandKeygen env (startProcess scratch stdout stderr)).final.secretKeyB64.bytes =
        List.replicate keyTextSize 0) :=
  ⟨commandDecrypt_cleared (startProcess_working ..) args,
    commandKeygen_cleared (startProcess_working ..)⟩

end Memory

section Keys
variable {env : HelperEnv} {p : Process}

theorem writeStdout_accepts (hacc : p.stdout.Accepts) (data : Bytes) :
    Ends (writeStdout data) p fun ok p' => ok = true ∧ p'.stdout.Accepts ∧
      accepted p'.stdout = accepted p.stdout ++ data := by
  have hok := write_of_accepts data hacc
  obtain ⟨n, haccepted, hall⟩ := write_accepted data p.stdout
  exact ⟨hok, write_accepts data hacc, haccepted.trans (by rw [hall hok])⟩

theorem printKeys_accepts (hacc : p.stdout.Accepts) (publicKeyB64 secretKeyB64 : Bytes) :
    Ends (printKeys publicKeyB64 secretKeyB64) p fun ok p' => ok = true ∧
      accepted p'.stdout =
        accepted p.stdout ++ publicKeyB64 ++ ascii "\n" ++ secretKeyB64 ++ ascii "\n" := by
  refine (writeStdout_accepts hacc _).bind ?_
  rintro _ p₁ ⟨rfl, h₁, hp₁⟩
  refine (writeStdout_accepts h₁ _).bind ?_
  rintro _ p₂ ⟨rfl, h₂, hp₂⟩
  refine (writeStdout_accepts h₂ _).bind ?_
  rintro _ p₃ ⟨rfl, h₃, hp₃⟩
  refine (writeStdout_accepts h₃ _).mono ?_
  rintro _ p₄ ⟨rfl, -, hp₄⟩
  exact ⟨rfl, by rw [hp₄, hp₃, hp₂, hp₁]⟩

theorem encode_key (hf : FollowsLibsodium env.sodium) {key : Bytes} (hlen : key.length = 32)
    (buffer : Bytes) :
    (env.sodium.bin2base64 keyTextSize key).2.isNone = false ∧
      cstr (overwrite buffer ((env.sodium.bin2base64 keyTextSize key).1.take keyTextSize)) =
        encode true key := by
  have hcode : (encode true key).length = 44 := by
    rw [encode_length_padded, hlen]
  obtain ⟨more, text, htext, -⟩ := hf.encode_ok keyTextSize key (by rw [hcode]; decide)
  rw [htext]
  refine ⟨rfl, ?_⟩
  have htake : (encode true key ++ 0 :: more).take keyTextSize = encode true key ++ [0] := by
    rw [List.take_append, hcode, List.take_of_length_le (hcode.le.trans (by decide))]
    rfl
  rw [htake, overwrite, List.append_assoc]
  exact cstr_append_zero (text_noNul true key) _

theorem commandKeygen_prints (hf : FollowsLibsodium env.sodium) {publicKey secretKey : Bytes}
    (hpair : env.keypair = (0, publicKey, secretKey))
    (hpublic : publicKey.length = cryptoBoxPublicKeyBytes)
    (hsecret : secretKey.length = cryptoBoxSecretKeyBytes) (h : Working env p)
    (hacc : p.stdout.Accepts) :
    Ends (commandKeygen env) p fun rc p' => rc = 0 ∧ accepted p'.stdout =
      accepted p.stdout ++ encode true publicKey ++ ascii "\n" ++ encode true secretKey ++
        ascii "\n" := by
  unfold commandKeygen
  rw [hpair]
  refine update_ends (.ite (fun hne => absurd rfl hne) fun _ => ?_)
  have hkey := fill_whole h.secretKey hsecret
  have hput : put (fresh env.scratch cryptoBoxPublicKeyBytes) publicKey = publicKey :=
    put_whole (by rw [hpublic, fresh_length])
  rw [hput]
  have hscratch : (fresh env.scratch keyTextSize).length = keyTextSize := fresh_length ..
  obtain ⟨hsome, htext⟩ := encode_key hf hpublic (fresh env.scratch keyTextSize)
  obtain ⟨hsome', htext'⟩ := encode_key hf hsecret p.secretKeyB64.bytes
  refine Ends.bind (R := fun rc p' => rc = 0 ∧ accepted p'.stdout = accepted p.stdout ++
    encode true publicKey ++ ascii "\n" ++ encode true secretKey ++ ascii "\n") ?_
    fun rc p₁ ⟨hrc, hp₁⟩ => update_ends (update_ends (.ret ⟨hrc, hp₁⟩))
  refine .ite (fun hnone => absurd (hsome.symm.trans hnone) (by decide)) fun _ => ?_
  refine Ends.bind_read hkey (update_ends ?_)
  refine .ite (fun hnone => absurd (hsome'.symm.trans hnone) (by decide)) fun _ => ?_
  refine Ends.bind_read htext' ?_
  have hprinted : cstr (put (fresh env.scratch keyTextSize)
      (env.sodium.bin2base64 keyTextSize publicKey).1) = encode true publicKey := by
    rw [put, hscratch]
    exact htext
  rw [hprinted]
  refine Ends.bind (printKeys_accepts ?_ _ _) ?_
  · exact hacc
  · rintro _ p₁ ⟨rfl, hp₁⟩
    exact .ret ⟨rfl, hp₁⟩

end Keys

end Salt.RoundtripHelperCorrect
