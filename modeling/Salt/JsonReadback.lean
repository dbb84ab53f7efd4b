import Salt.EmissionCorrect
import Salt.KeyParsingCorrect

set_option autoImplicit false

/-!
# The key parser reads what the JSON writer emits

The writer escapes every control byte, the reader knows only three of the
escapes. A string is read back just when it has no other control byte and the
buffer holds it with its terminator, and a key id the parser gave out never has
one.
-/
namespace Salt.JsonReadback
open ByteStrings TracedState KeyParsing Trimming KeyGrammar KeyParsingCorrect JsonEmission
  StreamFacts Tracking EmissionCorrect

/-- A byte whose escape the reader knows. -/
def Readable (c : UInt8) : Prop := c < 0x20 → c = 10 ∨ c = 13 ∨ c = 9

instance (c : UInt8) : Decidable (Readable c) :=
  inferInstanceAs (Decidable (c < 0x20 → c = 10 ∨ c = 13 ∨ c = 9))

theorem jsonEscape_unreadable {c : UInt8} (h : ¬ Readable c) : jsonEscape c = unicodeEscape c := by
  have hlow : c < 0x20 := not_not.1 fun hc => h fun hlt => absurd hlt hc
  have hother : ¬ (c = 10 ∨ c = 13 ∨ c = 9) := fun hc => h fun _ => hc
  have hquote : ¬ (c = 34 ∨ c = 92) := by
    rintro (rfl | rfl)
    · exact absurd hlow (by decide)
    · exact absurd hlow (by decide)
  rw [not_or, not_or] at hother
  rw [jsonEscape, if_neg hquote, if_neg hother.1, if_neg hother.2.1, if_neg hother.2.2, if_pos hlow]

/-- A readable byte is emitted as an escape of the reader, or as itself. -/
theorem jsonEscape_readable {c : UInt8} (h : Readable c) :
    (∃ e, Escape e c ∧ jsonEscape c = [92, e]) ∨
      (0x20 ≤ c ∧ c ≠ 34 ∧ c ≠ 92 ∧ jsonEscape c = [c]) := by
  by_cases hquote : c = 34
  · subst hquote
    exact .inl ⟨34, .quote, rfl⟩
  by_cases hback : c = 92
  · subst hback
    exact .inl ⟨92, .backslash, rfl⟩
  by_cases hlow : c < 0x20
  · rcases h hlow with rfl | rfl | rfl
    · exact .inl ⟨110, .newline, rfl⟩
    · exact .inl ⟨114, .carriageReturn, rfl⟩
    · exact .inl ⟨116, .tab, rfl⟩
  · have hc : 0x20 ≤ c := UInt8.not_lt.1 hlow
    have hne (d : UInt8) (hd : d < 0x20) : c ≠ d := fun hcd => hlow (hcd ▸ hd)
    refine .inr ⟨hc, hquote, hback, ?_⟩
    rw [jsonEscape, if_neg (not_or.2 ⟨hquote, hback⟩), if_neg (hne 10 (by decide)),
      if_neg (hne 13 (by decide)), if_neg (hne 9 (by decide)), if_neg hlow]

theorem flatMap_jsonEscape_readable {s : Bytes} (h : ∀ c ∈ s, Readable c) :
    StringBody (s.flatMap jsonEscape) s := by
  induction s with
  | nil => exact .nil
  | cons c s ih =>
    have htail := ih fun d hd => h d (List.mem_cons_of_mem _ hd)
    rw [List.flatMap_cons]
    rcases jsonEscape_readable (h c List.mem_cons_self) with ⟨e, he, hout⟩ | ⟨hc, hquote, hback, hout⟩
    · rw [hout]
      exact .escape he htail
    · rw [hout]
      exact .plain hc hquote hback htail

theorem jsonStringLoop_unreadable {c : UInt8} (h : ¬ Readable c) (cursor : Bytes) (i : ℕ)
    (out : Bytes) : ∃ t, jsonStringLoop (jsonEscape c ++ cursor) i out = some t ∧ t.ok = false := by
  rw [jsonEscape_unreadable h, unicodeEscape, List.cons_append, List.cons_append,
    jsonStringLoop_backslash (by decide)]
  split_ifs
  · exact ⟨_, rfl, rfl⟩
  · exact ⟨_, rfl, rfl⟩

/-- The loop stops at a byte behind which the terminator has no room. -/
theorem jsonStringLoop_full {c : UInt8} (h : Readable c) (cursor p q : Bytes) (hq : q.length ≤ 1) :
    ∃ t, jsonStringLoop (jsonEscape c ++ cursor) p.length (p ++ q) = some t ∧ t.ok = false := by
  have hfull : (p ++ q).length ≤ p.length + 1 := by
    rw [List.length_append]
    omega
  rcases jsonEscape_readable h with ⟨e, he, hout⟩ | ⟨hc, hquote, hback, hout⟩
  · rw [hout, List.cons_append, List.cons_append, jsonStringLoop_backslash he.ne_zero.1,
      if_pos hfull]
    exact ⟨_, rfl, rfl⟩
  · rw [hout, List.cons_append, jsonStringLoop.eq_def]
    simp only [List.nil_append, if_neg (plain_ne_zero hc), if_neg hquote, if_neg hback,
      if_neg (UInt8.not_lt.2 hc), if_pos hfull]
    exact ⟨_, rfl, rfl⟩

theorem jsonStringLoop_stores {c : UInt8} (h : Readable c) (cursor p q : Bytes) (hq : 1 < q.length) :
    jsonStringLoop (jsonEscape c ++ cursor) p.length (p ++ q) =
      jsonStringLoop cursor (p ++ [c]).length (p ++ [c] ++ q.drop 1) := by
  rcases jsonEscape_readable h with ⟨e, he, hout⟩ | ⟨hc, hquote, hback, hout⟩
  · rw [hout]
    exact jsonStringLoop_escape he cursor p q hq
  · rw [hout]
    exact jsonStringLoop_plain hc hquote hback cursor p q hq

theorem jsonStringLoop_refuses (s r p q : Bytes)
    (h : ¬ (s.length < q.length ∧ ∀ c ∈ s, Readable c)) :
    ∃ t, jsonStringLoop (s.flatMap jsonEscape ++ 34 :: r) p.length (p ++ q) = some t ∧
      t.ok = false := by
  induction s generalizing p q with
  | nil =>
    have hq : q.length = 0 := by
      by_contra hpos
      exact h ⟨Nat.pos_of_ne_zero hpos, by simp⟩
    refine ⟨⟨false, 34 :: r, p ++ q⟩, ?_, rfl⟩
    rw [List.flatMap_nil, List.nil_append, jsonStringLoop.eq_def]
    simp only [if_neg (show (34 : UInt8) ≠ 0 by decide), if_true]
    rw [if_pos (by rw [List.length_append]; omega)]
  | cons c s ih =>
    rw [List.flatMap_cons, List.append_assoc]
    by_cases hc : Readable c
    · by_cases hq : 1 < q.length
      · rw [jsonStringLoop_stores hc _ p q hq]
        refine ih _ _ fun hrest => h ⟨?_, List.forall_mem_cons.2 ⟨hc, hrest.2⟩⟩
        have hroom := hrest.1
        rw [List.length_drop] at hroom
        rw [List.length_cons]
        omega
      · exact jsonStringLoop_full hc _ p q (not_lt.1 hq)
    · exact jsonStringLoop_unreadable hc _ _ _

theorem jsonParseStringToken_emitted (s r buffer : Bytes) (hsize : 1 ≤ buffer.length) :
    ∃ t, jsonParseStringToken (jsonString s ++ r) buffer = some t ∧
      (t.ok = true ↔ s.length + 1 ≤ buffer.length ∧ ∀ c ∈ s, Readable c) ∧
      (t.ok = true → t.out = written s buffer ∧ t.cursor = r) := by
  have htext : jsonString s ++ r = 34 :: (s.flatMap jsonEscape ++ 34 :: r) := by simp [jsonString]
  rw [htext]
  by_cases h : s.length < buffer.length ∧ ∀ c ∈ s, Readable c
  · exact ⟨_, jsonParseStringToken_complete (flatMap_jsonEscape_readable h.2) r buffer h.1,
      ⟨fun _ => h, fun _ => rfl⟩, fun _ => ⟨rfl, rfl⟩⟩
  · obtain ⟨t, ht, hok⟩ := jsonStringLoop_refuses s r [] buffer h
    refine ⟨t, ?_, ⟨fun htrue => ?_, fun hread => absurd hread h⟩, fun htrue => ?_⟩
    · rw [jsonParseStringToken, if_neg (by omega)]
      exact ht
    · rw [hok] at htrue
      exact Bool.noConfusion htrue
    · rw [hok] at htrue
      exact Bool.noConfusion htrue

theorem StringBody.readable {raw text : Bytes} (h : StringBody raw text) :
    ∀ c ∈ text, Readable c := by
  induction h with
  | nil => simp
  | plain hc _ _ _ ih => exact List.forall_mem_cons.2 ⟨fun hlow => absurd hc (UInt8.not_le.2 hlow), ih⟩
  | escape he _ ih =>
    refine List.forall_mem_cons.2 ⟨?_, ih⟩
    cases he <;> decide

theorem Members.values_readable {s : Bytes} {ms : List (Bytes × Bytes)} (h : Members s ms) :
    ∀ m ∈ ms, ∀ c ∈ m.2, Readable c := by
  have hone {s : Bytes} {m : Bytes × Bytes} (h : Member s m) : ∀ c ∈ m.2, Readable c := by
    cases h with
    | mk _ _ _ _ hvalue _ => exact StringBody.readable hvalue
  induction h with
  | last h => simpa using hone h
  | more h _ ih => exact List.forall_mem_cons.2 ⟨hone h, ih⟩

theorem trim_readable {s : Bytes} (h : ∀ c ∈ s, Readable c) : ∀ c ∈ trim s, Readable c :=
  fun c hc => h c ((List.dropWhile_sublist _).subset ((List.rdropWhile_prefix _ _).sublist.subset hc))

theorem accepts_readable {json key id : Bytes} {keySize : ℕ} {keyIdSize : Option ℕ}
    (h : Accepts json keySize keyIdSize key (some id)) :
    (∀ c ∈ key, Readable c) ∧ (∀ c ∈ id, Readable c) := by
  obtain ⟨ms, ⟨a, s, b, -, -, hms, -⟩, hkm⟩ := h.members
  refine ⟨?_, ?_⟩
  · exact Members.values_readable hms _ (mem_valuesOf (by rw [hkm.key_once]; simp))
  · exact Members.values_readable hms _ (mem_valuesOf (by rw [hkm.keyId_once]; simp))

def keyIdObject (keyText idText : Bytes) : Bytes :=
  123 :: (34 :: (ascii "key" ++ 34 :: 58 :: keyText) ++
    44 :: 34 :: (ascii "key_id" ++ 34 :: 58 :: idText) ++ [125])

theorem emitted_member {name value : Bytes} (hname : ∀ c ∈ name, jsonEscape c = [c] ∧ Readable c)
    (hvalue : ∀ c ∈ value, Readable c) :
    Member (34 :: (name ++ 34 :: 58 :: jsonString value)) (name, value) := by
  have hbody := flatMap_jsonEscape_readable fun c hc => (hname c hc).2
  rw [List.flatMap_congr fun c hc => (hname c hc).1, List.flatMap_singleton'] at hbody
  have hblank : Blank [] := by simp [Blank]
  have h := Member.mk hblank hbody hblank hblank (flatMap_jsonEscape_readable hvalue) hblank
  simpa [jsonString] using h

theorem keyIdObject_accepted {json key id : Bytes} {keySize : ℕ} {keyIdSize : Option ℕ}
    (h : Accepts json keySize keyIdSize key (some id)) :
    Accepts (keyIdObject (jsonString (trim key)) (jsonString (trim id))) keySize keyIdSize
      (trim key) (some (trim id)) := by
  obtain ⟨hkey, hid⟩ := accepts_readable h
  have hfirst := @emitted_member (ascii "key") _ (by decide) (trim_readable hkey)
  have hsecond := @emitted_member (ascii "key_id") _ (by decide) (trim_readable hid)
  have hkeyLength := trim_length_le key
  have hidLength := trim_length_le id
  refine ⟨⟨[(ascii "key", trim key), (ascii "key_id", trim id)], ⟨[], _, [], ?_, by simp [Blank],
    .more hfirst (.last hsecond), by simp [Blank]⟩, ?_⟩, ?_, ?_, ?_⟩
  · simp [keyIdObject]
  · refine ⟨by simp, ?_, ?_⟩
    · simp [valuesOf, show ascii "key_id" ≠ ascii "key" by decide]
    · simp [valuesOf, show ascii "key" ≠ ascii "key_id" by decide]
  · have := h.key_fits
    omega
  · rw [← trim_eq_nil_iff, trim_trim, trim_eq_nil_iff]
    exact h.key_not_blank
  · intro text htext
    obtain rfl : trim id = text := by simpa using htext
    obtain ⟨size, hsize, hlt⟩ := h.keyId_fits id rfl
    exact ⟨size, hsize, by omega⟩

def Prints (w : World) (s : CString) (text : Bytes) : Prop :=
  Ends (writeJsonString s) w fun rc w' => rc = .ok ∧ accepted w'.out = accepted w.out ++ text

theorem writeJsonString_prints {w : World} (h : w.out.Accepts) (s : CString) :
    Prints w s (jsonString s.bytes) := by
  refine (writeJsonString_writes s _ _ _ (Tracks.refl w)).mono fun rc w' hend => ?_
  obtain ⟨n, htaken, hall⟩ := hend.taken
  have hok := hend.accepts h
  rw [hall hok] at htaken
  exact ⟨hok, htaken⟩

theorem parsed_keyId {json keyB64 : Bytes} {keyId error : Option Bytes} {key : Bytes}
    {id : Option Bytes} {out : KeyOut} (h : Accepts json keyB64.length (keyId.map List.length) key id)
    (hparsed : Parsed keyB64 keyId error key id out) (hflag : out.hasKeyId = some true) :
    ∃ text keyBuffer idBuffer, id = some text ∧ out.keyB64 = some keyBuffer ∧
      out.keyId = some idBuffer ∧ cstr keyBuffer = trim key ∧ cstr idBuffer = trim text ∧
      keyId.map List.length = some idBuffer.length := by
  obtain ⟨ms, ⟨a, s, b, -, -, hms, -⟩, hkm⟩ := h.members
  obtain ⟨hkey0, -⟩ := hkm.noNul hms
  obtain ⟨tail, hkeyB64, -⟩ := hparsed.keyB64
  have hlength := hparsed.keyId_length
  have hcstr := hparsed.keyId_cstr
  rw [hparsed.hasKeyId] at hflag
  cases id with
  | none => exact absurd hflag (by simp [trim, strip_nil])
  | some text =>
    cases hout : out.keyId with
    | none =>
      rw [hout, eq_comm, Option.map_none, Option.map_eq_none_iff] at hlength
      obtain ⟨size, hsize, -⟩ := h.keyId_fits text rfl
      simp [hlength] at hsize
    | some idBuffer =>
      rw [hout] at hlength hcstr
      obtain ⟨buffer, hbuffer⟩ : ∃ buffer, keyId = some buffer := by
        cases keyId with
        | none => simp at hlength
        | some buffer => exact ⟨buffer, rfl⟩
      rw [hbuffer] at hcstr hlength ⊢
      refine ⟨text, _, idBuffer, rfl, hkeyB64, rfl, cstr_append_zero (trim_noNul hkey0) tail, ?_,
        hlength.symm⟩
      simpa using hcstr

/-- The emitter and the reader do not drift apart: the reader takes back just the strings it can
hold without other control bytes, and so every key id the parser gives out. -/
theorem writeJsonString_readBack (w : World) (hout : w.out.Accepts) :
    (∀ s : CString, ∃ text, Prints w s text ∧ ∀ r buffer : Bytes, 1 ≤ buffer.length →
      ∃ t, jsonParseStringToken (text ++ r) buffer = some t ∧
        (t.ok = true ↔ s.bytes.length + 1 ≤ buffer.length ∧
          ∀ c ∈ s.bytes, c < 0x20 → c = 10 ∨ c = 13 ∨ c = 9) ∧
        (t.ok = true → t.out = s.bytes ++ 0 :: buffer.drop (s.bytes.length + 1) ∧ t.cursor = r)) ∧
    ∀ (json : CString) (keyB64 : Bytes) (keyId error : Option Bytes) (flag : Bool) (out : KeyOut),
      saltCliParseKeyJsonObjectStrict (some json.memory) ⟨some keyB64, keyId, some flag, error⟩ =
        some (.ok, out) → out.hasKeyId = some true →
      ∃ key id keyText idText, out.keyB64 = some key ∧ out.keyId = some id ∧
        Prints w (CString.ofBuffer key) keyText ∧ Prints w (CString.ofBuffer id) idText ∧
        (∀ r buffer : Bytes, buffer.length = id.length →
          jsonParseStringToken (idText ++ r) buffer =
            some ⟨true, r, cstr id ++ 0 :: buffer.drop ((cstr id).length + 1)⟩) ∧
        ∀ (keyB64' : Bytes) (keyId' error' : Option Bytes) (flag' : Bool),
          keyB64'.length = keyB64.length → keyId'.map List.length = keyId.map List.length →
          ∃ out', saltCliParseKeyJsonObjectStrict (some (keyIdObject keyText idText ++ [0]))
              ⟨some keyB64', keyId', some flag', error'⟩ = some (.ok, out') ∧
            out'.keyB64.map cstr = some (cstr key) ∧ out'.keyId.map cstr = some (cstr id) ∧
            out'.hasKeyId = some true := by
  refine ⟨fun s => ⟨_, writeJsonString_prints hout s, fun r buffer hsize =>
    jsonParseStringToken_emitted s.bytes r buffer hsize⟩, ?_⟩
  intro json keyB64 keyId error flag out hrun hflag
  have hne : keyB64 ≠ [] := by
    rintro rfl
    simp [saltCliParseKeyJsonObjectStrict] at hrun
  obtain ⟨key, id, hacc, hparsed⟩ := accepts_of_ok json.noNul [] hne hrun
  obtain ⟨text, keyBuffer, idBuffer, rfl, hkeyB64, hkeyId, hkey, hid, hsize⟩ :=
    parsed_keyId hacc hparsed hflag
  have hreadable := trim_readable (accepts_readable hacc).2
  have hkeyText := writeJsonString_prints hout (CString.ofBuffer keyBuffer)
  have hidText := writeJsonString_prints hout (CString.ofBuffer idBuffer)
  rw [show (CString.ofBuffer keyBuffer).bytes = trim key from hkey] at hkeyText
  rw [show (CString.ofBuffer idBuffer).bytes = trim text from hid] at hidText
  refine ⟨keyBuffer, idBuffer, _, _, hkeyB64, hkeyId, hkeyText, hidText, ?_, ?_⟩
  · -- the trimmed id is no longer than the id that fitted the buffer
    intro r buffer hbuffer
    obtain ⟨size, hsome, hlt⟩ := hacc.keyId_fits text rfl
    rw [hsize, Option.mem_some_iff] at hsome
    have hfits : (trim text).length < buffer.length := by
      have := trim_length_le text
      omega
    have hread := jsonParseStringToken_complete (flatMap_jsonEscape_readable hreadable) r buffer hfits
    rw [hid, ← written]
    simpa [jsonString] using hread
  · intro keyB64' keyId' error' flag' hkeyLen hidLen
    have hacc' := keyIdObject_accepted hacc
    rw [← hkeyLen, ← hidLen] at hacc'
    have hne' : keyB64' ≠ [] := fun hnil => hne (List.length_eq_zero_iff.1 (by rw [← hkeyLen, hnil]; rfl))
    obtain ⟨out', hrun', hparsed'⟩ :=
      saltCliParseKeyJsonObjectStrict_complete [] hne' error' flag' hacc'
    have hflag' : out'.hasKeyId = some true := by
      rw [hparsed'.hasKeyId, ← hflag, hparsed.hasKeyId, Option.getD_some, Option.getD_some, trim_trim]
    obtain ⟨text', keyBuffer', idBuffer', htext, hkeyB64', hkeyId', hkey', hid', -⟩ :=
      parsed_keyId hacc' hparsed' hflag'
    obtain rfl : trim text = text' := Option.some.inj htext
    refine ⟨out', hrun', ?_, ?_, hflag'⟩
    · rw [hkeyB64', Option.map_some, hkey', hkey, trim_trim]
    · rw [hkeyId', Option.map_some, hid', hid, trim_trim]

/-- A quote and a tab come back through a buffer that just holds them. -/
theorem writeJsonString_readBack_quote :
    let w := freshWorld (calmEnv SealingCorrect.referenceSodium) [] []
    ∃ text, Prints w ⟨[34, 9], by decide⟩ text ∧ ∃ t,
      jsonParseStringToken (text ++ [44]) [7, 7, 7] = some t ∧ t.ok = true ∧
        t.out = [34, 9, 0] ∧ t.cursor = [44] := by
  intro w
  obtain ⟨hread, -⟩ := writeJsonString_readBack w fun _ => ⟨0, rfl⟩
  obtain ⟨text, hprints, htext⟩ := hread ⟨[34, 9], by decide⟩
  obtain ⟨t, ht, hiff, hstored⟩ := htext [44] [7, 7, 7] (by decide)
  have hok := hiff.2 (by decide)
  exact ⟨text, hprints, t, ht, hok, (hstored hok).1, (hstored hok).2⟩

end Salt.JsonReadback
