import Salt.Emission
import Salt.JsonText
import Salt.Utf8Text

set_option autoImplicit false

/-!
# The text of a JSON record

What the branches of the string writer print for one byte, and why every
conforming reader gets the two strings back from the whole record.
-/
namespace Salt.JsonEmission
open ByteStrings JsonText

/-- The bytes `write_json_string` prints for one byte of the value. -/
def jsonEscape (c : UInt8) : Bytes :=
  if c = 34 ∨ c = 92 then [92, c]
  else if c = 10 then [92, 110]
  else if c = 13 then [92, 114]
  else if c = 9 then [92, 116]
  else if c < 0x20 then unicodeEscape c
  else [c]

def jsonString (s : Bytes) : Bytes := 34 :: (s.flatMap jsonEscape ++ [34])

def jsonRecord (value keyId : Bytes) : Bytes :=
  123 :: (ascii "\"encrypted_value\":" ++ (jsonString value ++
    (ascii ",\"key_id\":" ++ (jsonString keyId ++ [125]))))

/-- How a reader sees the escape of one byte. -/
def jsonPiece (c : UInt8) : Piece :=
  if c < 0x20 ∧ c ≠ 10 ∧ c ≠ 13 ∧ c ≠ 9 then .unit c.toNat else .byte c

theorem hexUnit_control {c : UInt8} (h : c < 0x20) :
    hexUnit 48 48 (hexDigit (c.toNat / 16)) (hexDigit (c.toNat % 16)) = some c.toNat := by
  have hall : ∀ n < 32, hexUnit 48 48 (hexDigit (n / 16)) (hexDigit (n % 16)) = some n := by decide
  exact hall c.toNat (UInt8.lt_iff_toNat_lt.1 h)

theorem jsonEscape_body (c : UInt8) {raw : Bytes} {ps : List Piece} (h : StringBody raw ps) :
    StringBody (jsonEscape c ++ raw) (jsonPiece c :: ps) := by
  unfold jsonEscape jsonPiece
  by_cases hquote : c = 34 ∨ c = 92
  · rw [if_pos hquote]
    rcases hquote with rfl | rfl
    · exact .escape rfl h
    · exact .escape rfl h
  rw [if_neg hquote, not_or] at *
  by_cases hn : c = 10
  · subst hn
    exact .escape rfl h
  by_cases hr : c = 13
  · subst hr
    exact .escape rfl h
  by_cases ht : c = 9
  · subst ht
    exact .escape rfl h
  rw [if_neg hn, if_neg hr, if_neg ht]
  by_cases hlow : c < 0x20
  · rw [if_pos hlow, if_pos ⟨hlow, hn, hr, ht⟩]
    exact .unicode (hexUnit_control hlow) h
  · rw [if_neg hlow, if_neg fun hc => hlow hc.1]
    exact .plain (UInt8.not_lt.1 hlow) hquote.1 hquote.2 h

theorem flatMap_jsonEscape_body (s : Bytes) :
    StringBody (s.flatMap jsonEscape) (s.map jsonPiece) := by
  induction s with
  | nil => exact .nil
  | cons c s ih => exact jsonEscape_body c ih

theorem codePointBytes_low {u : ℕ} (h : u < 0x20) : codePointBytes u = [UInt8.ofNat u] :=
  if_pos (by omega)

theorem pieceBytes_unit_low {u : ℕ} (h : u < 0x20) (ps : List Piece) :
    pieceBytes (.unit u :: ps) = UInt8.ofNat u :: pieceBytes ps := by
  have hhigh : isHigh u = false := by
    simp only [isHigh, Bool.and_eq_false_iff, decide_eq_false_iff_not]
    omega
  rcases ps with _ | ⟨b | v, ps⟩
  · simp [pieceBytes, codePointBytes_low h]
  · simp [pieceBytes, codePointBytes_low h]
  · rw [pieceBytes, hhigh, Bool.false_and, if_neg (by decide), codePointBytes_low h]
    rfl

theorem pieceBytes_map (s : Bytes) : pieceBytes (s.map jsonPiece) = s := by
  induction s with
  | nil => rfl
  | cons c s ih =>
    rw [List.map_cons, jsonPiece]
    by_cases hlow : c < 0x20 ∧ c ≠ 10 ∧ c ≠ 13 ∧ c ≠ 9
    · rw [if_pos hlow, pieceBytes_unit_low (UInt8.lt_iff_toNat_lt.1 hlow.1), ih, UInt8.ofNat_toNat]
    · rw [if_neg hlow, pieceBytes, ih]

def recordValue (value keyId : Bytes) : Json :=
  .obj [(ascii "encrypted_value", .str value), (ascii "key_id", .str keyId)]

theorem jsonString_derives (s : Bytes) : Derives (jsonString s) (.value (.str s)) := by
  have h := Derives.str (flatMap_jsonEscape_body s)
  rwa [pieceBytes_map] at h

theorem name_body (s : Bytes) (h : ∀ c ∈ s, jsonEscape c = [c]) : StringBody s (s.map jsonPiece) := by
  have hid : s.flatMap jsonEscape = s := by
    rw [List.flatMap_congr h]
    exact List.flatMap_singleton' s
  have hbody := flatMap_jsonEscape_body s
  rwa [hid] at hbody

theorem jsonRecord_text (value keyId : Bytes) :
    Text (jsonRecord value keyId) (recordValue value keyId) := by
  have hws : Ws [] := by simp [Ws]
  have hid := Derives.memberLast hws (name_body (ascii "key_id") (by decide)) hws hws
    (jsonString_derives keyId) hws
  have hboth := Derives.memberMore hws (name_body (ascii "encrypted_value") (by decide)) hws hws
    (jsonString_derives value) hws hid
  rw [pieceBytes_map, pieceBytes_map] at hboth
  refine ⟨[], jsonRecord value keyId, [], hws, ?_, hws, by simp⟩
  have hobj := Derives.obj hboth
  simpa [jsonRecord, recordValue, ascii] using hobj

theorem hexDigit_range {n : ℕ} (h : n < 16) : 0x20 ≤ hexDigit n ∧ hexDigit n < 0x80 := by
  have hall : ∀ n < 16, 0x20 ≤ hexDigit n ∧ hexDigit n < 0x80 := by decide
  exact hall n h

theorem unicodeEscape_range {c : UInt8} (h : c < 0x20) :
    ∀ x ∈ unicodeEscape c, 0x20 ≤ x ∧ x < 0x80 := by
  have hlow : c.toNat < 32 := UInt8.lt_iff_toNat_lt.1 h
  have hhi := hexDigit_range (n := c.toNat / 16) (by omega)
  have hlo := hexDigit_range (n := c.toNat % 16) (by omega)
  intro x hx
  simp only [unicodeEscape, List.mem_cons, List.not_mem_nil, or_false] at hx
  rcases hx with rfl | rfl | rfl | rfl | rfl | rfl
  all_goals first | exact hhi | exact hlo | decide

/-- The escape of a byte is printable; it is ASCII when the byte is, else the byte itself. -/
theorem jsonEscape_range (c : UInt8) :
    (∀ x ∈ jsonEscape c, 0x20 ≤ x) ∧ (c < 0x80 → ∀ x ∈ jsonEscape c, x < 0x80) ∧
      (0x80 ≤ c → jsonEscape c = [c]) := by
  unfold jsonEscape
  split_ifs with hq hn hr ht hlow
  · rcases hq with rfl | rfl <;> decide
  · subst hn; decide
  · subst hr; decide
  · subst ht; decide
  · refine ⟨fun x hx => (unicodeEscape_range hlow x hx).1,
      fun _ x hx => (unicodeEscape_range hlow x hx).2, fun h => ?_⟩
    simp only [UInt8.lt_iff_toNat_lt, UInt8.le_iff_toNat_le, UInt8.reduceToNat] at hlow h
    omega
  · simp [UInt8.not_lt.1 hlow]

theorem jsonString_wellFormed {s : Bytes} (h : Utf8Text.WellFormed s) :
    Utf8Text.WellFormed (jsonString s) :=
  have hquote := Utf8Text.wellFormed_of_ascii (s := [34]) (by decide)
  hquote.append ((h.flatMap_ascii jsonEscape (fun b hb => (jsonEscape_range b).2.1 hb)
    fun b hb => (jsonEscape_range b).2.2 hb).append hquote)

theorem jsonRecord_wellFormed {value keyId : Bytes} (hvalue : Utf8Text.WellFormed value)
    (hid : Utf8Text.WellFormed keyId) : Utf8Text.WellFormed (jsonRecord value keyId) := by
  have hopen := Utf8Text.wellFormed_of_ascii (s := [123]) (by decide)
  have hfirst := Utf8Text.wellFormed_of_ascii (s := ascii "\"encrypted_value\":") (by decide)
  have hsecond := Utf8Text.wellFormed_of_ascii (s := ascii ",\"key_id\":") (by decide)
  have hclose := Utf8Text.wellFormed_of_ascii (s := [125]) (by decide)
  exact hopen.append (hfirst.append ((jsonString_wellFormed hvalue).append
    (hsecond.append ((jsonString_wellFormed hid).append hclose))))

theorem jsonString_printable (s : Bytes) : ∀ x ∈ jsonString s, 0x20 ≤ x := by
  intro x hx
  simp only [jsonString, List.mem_cons, List.mem_append, List.mem_flatMap, List.not_mem_nil,
    or_false] at hx
  rcases hx with rfl | ⟨c, -, hc⟩ | rfl
  · decide
  · exact (jsonEscape_range c).1 x hc
  · decide

theorem jsonRecord_printable (value keyId : Bytes) : ∀ x ∈ jsonRecord value keyId, 0x20 ≤ x := by
  have hname : ∀ x ∈ ascii "\"encrypted_value\":" ++ ascii ",\"key_id\":" ++ [123, 125],
      (0x20 : UInt8) ≤ x := by decide
  intro x hx
  simp only [jsonRecord, List.mem_cons, List.mem_append, List.not_mem_nil, or_false] at hx hname
  rcases hx with rfl | hx | hx | hx | hx | rfl
  · decide
  · exact hname x (.inl (.inl hx))
  · exact jsonString_printable value x hx
  · exact hname x (.inl (.inr hx))
  · exact jsonString_printable keyId x hx
  · decide

end Salt.JsonEmission
