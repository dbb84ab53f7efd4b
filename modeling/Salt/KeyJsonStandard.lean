import Salt.JsonText
import Salt.KeyParsingCorrect
import Salt.Utf8Text

set_option autoImplicit false

/-!
# The key parser against the standard

The parser skips two characters the standard does not call white space, and
does not look at the encoding. On every other text it accepts it agrees with
the grammar of RFC 8259.
-/
namespace Salt.KeyJsonStandard
open ByteStrings KeyParsing Trimming KeyGrammar KeyParsingCorrect

/-- A JSON text whose value is a key object of strings. -/
def IsStandard (json : Bytes) : Prop :=
  Utf8Text.WellFormed json ∧ ∃ ms key id,
    JsonText.Text json (.obj (ms.map fun m => (m.1, .str m.2))) ∧ KeyMembers ms key id

def Conforming (json : Bytes) : Prop := 11 ∉ json ∧ 12 ∉ json ∧ Utf8Text.WellFormed json

def NoVerticalSpace (s : Bytes) : Prop := 11 ∉ s ∧ 12 ∉ s

theorem NoVerticalSpace.of_subset {s t : Bytes} (h : NoVerticalSpace t) (hst : s ⊆ t) :
    NoVerticalSpace s :=
  ⟨fun hm => h.1 (hst hm), fun hm => h.2 (hst hm)⟩

theorem ws_of_blank {a : Bytes} (ha : Blank a) (h : NoVerticalSpace a) : JsonText.Ws a := by
  intro b hb
  have hws := ha b hb
  have h11 : b ≠ 11 := fun heq => h.1 (heq ▸ hb)
  have h12 : b ≠ 12 := fun heq => h.2 (heq ▸ hb)
  simp only [cliIsAsciiWs, Bool.or_eq_true, decide_eq_true_eq, h11, h12, or_false] at hws
  simpa [JsonText.isWs, or_assoc] using hws

theorem escapeByte_of_escape {e v : UInt8} (h : Escape e v) : JsonText.escapeByte e = some v := by
  cases h <;> rfl

theorem stringBody_standard {raw text : Bytes} (h : StringBody raw text) :
    JsonText.StringBody raw (text.map .byte) := by
  induction h with
  | nil => exact .nil
  | plain hc hquote hback _ ih => exact .plain hc hquote hback ih
  | escape he _ ih => exact .escape (escapeByte_of_escape he) ih

theorem pieceBytes_bytes (text : Bytes) : JsonText.pieceBytes (text.map .byte) = text := by
  induction text with
  | nil => rfl
  | cons c text ih => rw [List.map_cons, JsonText.pieceBytes, ih]

theorem string_derives {raw text : Bytes} (h : StringBody raw text) :
    JsonText.Derives (34 :: (raw ++ [34])) (.value (.str text)) := by
  have hs := JsonText.Derives.str (stringBody_standard h)
  rwa [pieceBytes_bytes] at hs

def jsonMembers (ms : List (Bytes × Bytes)) : List (Bytes × JsonText.Json) :=
  ms.map fun m => (m.1, .str m.2)

theorem members_derives {s : Bytes} {ms : List (Bytes × Bytes)} (h : Members s ms)
    (hs : NoVerticalSpace s) : JsonText.Derives s (.members (jsonMembers ms)) := by
  induction h with
  | last hm =>
    obtain @⟨a, b, c, d, rawName, rawValue, name, value, ha, hname, hb, hc, hvalue, hd⟩ := hm
    have hpart {t : Bytes} (ht : t ⊆ a ++ 34 :: (rawName ++ 34 :: (b ++ 58 :: (c ++ 34 ::
        (rawValue ++ 34 :: d))))) (hblank : Blank t) : JsonText.Ws t :=
      ws_of_blank hblank (hs.of_subset ht)
    have hmember := JsonText.Derives.memberLast (hpart (by simp) ha) (stringBody_standard hname)
      (hpart (by intro x hx; simp [hx]) hb) (hpart (by intro x hx; simp [hx]) hc)
      (string_derives hvalue) (hpart (by intro x hx; simp [hx]) hd)
    rw [pieceBytes_bytes] at hmember
    simpa [jsonMembers] using hmember
  | @more s t m ms hm tail ih =>
    obtain @⟨a, b, c, d, rawName, rawValue, name, value, ha, hname, hb, hc, hvalue, hd⟩ := hm
    have hpart {u : Bytes} (hu : u ⊆ a ++ 34 :: (rawName ++ 34 :: (b ++ 58 :: (c ++ 34 ::
        (rawValue ++ 34 :: d)))) ++ 44 :: t) (hblank : Blank u) : JsonText.Ws u :=
      ws_of_blank hblank (hs.of_subset hu)
    have hrest := ih (hs.of_subset (by intro x hx; simp [hx]))
    have hmember := JsonText.Derives.memberMore (hpart (by intro x hx; simp [hx]) ha)
      (stringBody_standard hname) (hpart (by intro x hx; simp [hx]) hb)
      (hpart (by intro x hx; simp [hx]) hc) (string_derives hvalue)
      (hpart (by intro x hx; simp [hx]) hd) hrest
    rw [pieceBytes_bytes] at hmember
    simpa [jsonMembers] using hmember

theorem keyObject_text {json : Bytes} {ms : List (Bytes × Bytes)} (h : KeyObject json ms)
    (hjson : NoVerticalSpace json) : JsonText.Text json (.obj (jsonMembers ms)) := by
  obtain ⟨a, s, b, rfl, ha, hms, hb⟩ := h
  refine ⟨a, 123 :: (s ++ [125]), b, ws_of_blank ha (hjson.of_subset (by simp)),
    .obj (members_derives hms (hjson.of_subset (by intro x hx; simp [hx]))),
    ws_of_blank hb (hjson.of_subset (by intro x hx; simp [hx])), by simp⟩

def Standard (s : Bytes) : Prop := ∀ b ∈ s, 0x20 ≤ b ∨ JsonText.isWs b = true

theorem Standard.noVerticalSpace {s : Bytes} (h : Standard s) : NoVerticalSpace s :=
  ⟨fun hm => absurd (h 11 hm) (by decide), fun hm => absurd (h 12 hm) (by decide)⟩

theorem standard_ws {s : Bytes} (h : JsonText.Ws s) : Standard s := fun b hb => .inr (h b hb)

theorem standard_append {s t : Bytes} : Standard (s ++ t) ↔ Standard s ∧ Standard t := by
  simp only [Standard, List.mem_append, or_imp, forall_and]

theorem standard_cons {b : UInt8} {s : Bytes} :
    Standard (b :: s) ↔ (0x20 ≤ b ∨ JsonText.isWs b = true) ∧ Standard s := by
  simp [Standard]

theorem standard_plain {b : UInt8} {s : Bytes} (hb : 0x20 ≤ b) (hs : Standard s) :
    Standard (b :: s) := standard_cons.2 ⟨.inl hb, hs⟩

theorem escapeByte_printable {e d : UInt8} (h : JsonText.escapeByte e = some d) : 0x20 ≤ e := by
  by_contra hlow
  have hall : ∀ n < 0x20, JsonText.escapeByte (UInt8.ofNat n) = none := by decide
  have hn := hall e.toNat (UInt8.lt_iff_toNat_lt.1 (UInt8.not_le.1 hlow))
  rw [UInt8.ofNat_toNat, h] at hn
  cases hn

theorem hexValue_printable {c : UInt8} {n : ℕ} (h : JsonText.hexValue c = some n) : 0x20 ≤ c := by
  by_contra hlow
  have hall : ∀ n < 0x20, JsonText.hexValue (UInt8.ofNat n) = none := by decide
  have hn := hall c.toNat (UInt8.lt_iff_toNat_lt.1 (UInt8.not_le.1 hlow))
  rw [UInt8.ofNat_toNat, h] at hn
  cases hn

theorem hexUnit_printable {a b c d : UInt8} {u : ℕ} (h : JsonText.hexUnit a b c d = some u) :
    0x20 ≤ a ∧ 0x20 ≤ b ∧ 0x20 ≤ c ∧ 0x20 ≤ d := by
  obtain ⟨_, ha, h⟩ := Option.bind_eq_some_iff.1 h
  obtain ⟨_, hb, h⟩ := Option.bind_eq_some_iff.1 h
  obtain ⟨_, hc, h⟩ := Option.bind_eq_some_iff.1 h
  obtain ⟨_, hd, -⟩ := Option.bind_eq_some_iff.1 h
  exact ⟨hexValue_printable ha, hexValue_printable hb, hexValue_printable hc, hexValue_printable hd⟩

theorem standard_body {raw : Bytes} {ps : List JsonText.Piece} (h : JsonText.StringBody raw ps) :
    Standard raw := by
  induction h with
  | nil => simp [Standard]
  | plain low _ _ _ ih => exact standard_plain low ih
  | escape named _ ih => exact standard_plain (by decide) (standard_plain (escapeByte_printable named) ih)
  | unicode hex _ ih =>
    obtain ⟨ha, hb, hc, hd⟩ := hexUnit_printable hex
    exact standard_plain (by decide) (standard_plain (by decide) (standard_plain ha
      (standard_plain hb (standard_plain hc (standard_plain hd ih)))))

theorem standard_number {s : Bytes} (h : JsonText.isNumber s = true) : Standard s := by
  intro b hb
  have hchar := (JsonText.isNumber_chars h).2 b hb
  simp only [JsonText.isNumberChar, JsonText.isDigit, Bool.or_eq_true, Bool.and_eq_true,
    decide_eq_true_eq, UInt8.le_iff_toNat_le, ← UInt8.toNat_inj, UInt8.reduceToNat] at hchar ⊢
  omega

theorem standard_derives {s : Bytes} {p : JsonText.Phrase} (h : JsonText.Derives s p) :
    Standard s := by
  have hquote : Standard [34] := by simp [Standard]
  induction h with
  | null => exact fun b hb => .inl (by revert b; decide)
  | true => exact fun b hb => .inl (by revert b; decide)
  | false => exact fun b hb => .inl (by revert b; decide)
  | num h => exact standard_number h
  | str h => exact standard_plain (by decide) (standard_append.2 ⟨standard_body h, hquote⟩)
  | arrEmpty h =>
    exact standard_plain (by decide) (standard_append.2 ⟨standard_ws h, by simp [Standard]⟩)
  | arr _ ih => exact standard_plain (by decide) (standard_append.2 ⟨ih, by simp [Standard]⟩)
  | objEmpty h =>
    exact standard_plain (by decide) (standard_append.2 ⟨standard_ws h, by simp [Standard]⟩)
  | obj _ ih => exact standard_plain (by decide) (standard_append.2 ⟨ih, by simp [Standard]⟩)
  | itemLast ha _ hb ih =>
    exact standard_append.2 ⟨standard_ws ha, standard_append.2 ⟨ih, standard_ws hb⟩⟩
  | itemMore ha _ hb _ ih iht =>
    exact standard_append.2 ⟨standard_ws ha, standard_append.2 ⟨ih,
      standard_append.2 ⟨standard_ws hb, standard_plain (by decide) iht⟩⟩⟩
  | memberLast ha hn hb hc _ hd ih =>
    refine standard_append.2 ⟨standard_ws ha, standard_plain (by decide)
      (standard_append.2 ⟨standard_body hn, standard_plain (by decide) (standard_append.2
        ⟨standard_ws hb, standard_plain (by decide) ?_⟩)⟩)⟩
    exact standard_append.2 ⟨standard_ws hc, standard_append.2 ⟨ih, standard_ws hd⟩⟩
  | memberMore ha hn hb hc _ hd _ ih iht =>
    refine standard_append.2 ⟨standard_ws ha, standard_plain (by decide)
      (standard_append.2 ⟨standard_body hn, standard_plain (by decide) (standard_append.2
        ⟨standard_ws hb, standard_plain (by decide) ?_⟩)⟩)⟩
    exact standard_append.2 ⟨standard_ws hc, standard_append.2 ⟨ih,
      standard_append.2 ⟨standard_ws hd, standard_plain (by decide) iht⟩⟩⟩

theorem standard_text {s : Bytes} {v : JsonText.Json} (h : JsonText.Text s v) : Standard s := by
  obtain ⟨a, t, b, ha, ht, hb, rfl⟩ := h
  exact standard_append.2 ⟨standard_ws ha, standard_append.2 ⟨standard_derives ht, standard_ws hb⟩⟩

theorem isStandard_iff {json key : Bytes} {keySize : ℕ} {keyIdSize : Option ℕ} {id : Option Bytes}
    (h : Accepts json keySize keyIdSize key id) : IsStandard json ↔ Conforming json := by
  constructor
  · rintro ⟨hwf, ms, key, id, htext, -⟩
    have hno := (standard_text htext).noVerticalSpace
    exact ⟨hno.1, hno.2, hwf⟩
  · rintro ⟨h11, h12, hwf⟩
    obtain ⟨ms, hobj, hkm⟩ := h.members
    exact ⟨hwf, ms, key, id, keyObject_text hobj ⟨h11, h12⟩, hkm⟩

def ParsesKeyObject (json : CString) (keyB64 : Bytes) (keyId error : Option Bytes) : Prop :=
  ∃ flag out, saltCliParseKeyJsonObjectStrict (some json.memory)
    ⟨some keyB64, keyId, some flag, error⟩ = some (.ok, out)

theorem parsesKeyObject_iff (json : CString) (keyB64 : Bytes) (keyId error : Option Bytes) :
    ParsesKeyObject json keyB64 keyId error ↔
      keyB64 ≠ [] ∧ ∃ key id, Accepts json.bytes keyB64.length (keyId.map List.length) key id := by
  by_cases hsize : keyB64 = []
  · refine iff_of_false ?_ fun h => h.1 hsize
    rintro ⟨flag, out, hrun⟩
    simp [saltCliParseKeyJsonObjectStrict, hsize] at hrun
  constructor
  · rintro ⟨flag, out, hrun⟩
    obtain ⟨key, id, h, -⟩ := accepts_of_ok json.noNul [] hsize hrun
    exact ⟨hsize, key, id, h⟩
  · rintro ⟨-, key, id, h⟩
    obtain ⟨out, hrun, -⟩ :=
      saltCliParseKeyJsonObjectStrict_complete [] hsize error false h
    exact ⟨false, out, hrun⟩

/-- An accepted text is a standard one, just when it conforms or is refused. -/
theorem saltCliParseKeyJsonObjectStrict_standard_iff (json : CString) (keyB64 : Bytes)
    (keyId error : Option Bytes) :
    (ParsesKeyObject json keyB64 keyId error → IsStandard json.bytes) ↔
      (Conforming json.bytes ∨ keyB64 = [] ∨
        ¬ ∃ key id, Accepts json.bytes keyB64.length (keyId.map List.length) key id) := by
  rw [parsesKeyObject_iff]
  constructor
  · intro h
    by_cases hacc : keyB64 ≠ [] ∧
        ∃ key id, Accepts json.bytes keyB64.length (keyId.map List.length) key id
    · obtain ⟨key, id, hkey⟩ := hacc.2
      exact .inl ((isStandard_iff hkey).1 (h hacc))
    · rw [not_and_or, not_not] at hacc
      exact .inr hacc
  · rintro h ⟨hsize, key, id, hkey⟩
    rcases h with hconf | hnil | hno
    · exact (isStandard_iff hkey).2 hconf
    · exact absurd hnil hsize
    · exact absurd ⟨key, id, hkey⟩ hno

/-- A vertical tab behind the object. -/
theorem saltCliParseKeyJsonObjectStrict_not_standard :
    let json : CString := ⟨ascii "\x7b\"key\":\"A\"\x7d" ++ [11], by decide⟩
    ParsesKeyObject json (List.replicate 2 0) none none ∧ ¬ IsStandard json.bytes := by
  intro json
  refine ⟨(parsesKeyObject_iff json _ none none).2 ⟨by simp, _, _,
    accepts_letter (b := [11]) (by decide)⟩, ?_⟩
  rintro ⟨-, ms, key, id, htext, -⟩
  exact (standard_text htext).noVerticalSpace.1 (by decide)

end Salt.KeyJsonStandard
