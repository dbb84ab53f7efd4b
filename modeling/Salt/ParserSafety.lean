import Salt.KeyInputCorrect

set_option autoImplicit false

/-!
# Every run of the key parsers stays in bounds

A run that returns has read its input no further than the terminator and has
stored nothing outside a buffer. The cursor only ever moves towards the
terminator.
-/
namespace Salt.ParserSafety
open ByteStrings KeyParsing Trimming KeyGrammar KeyParsingCorrect KeyInputCorrect

theorem jsonSkipWs_suffix {cursor cursor' : Bytes} (h : jsonSkipWs cursor = some cursor') :
    cursor' <:+ cursor := by
  induction cursor with
  | nil => exact absurd h (by simp [jsonSkipWs])
  | cons c rest ih =>
    rw [jsonSkipWs] at h
    split_ifs at h
    · exact (ih h).trans (List.suffix_cons c rest)
    · exact (Option.some.inj h) ▸ List.suffix_rfl

theorem jsonStringLoop_suffix {cursor out : Bytes} {i : ℕ} {t : Token}
    (h : jsonStringLoop cursor i out = some t) : t.cursor <:+ cursor := by
  fun_induction jsonStringLoop cursor i out with
  | case1 | case5 => exact absurd h (by simp)
  | case2 | case3 | case10 | case11 =>
    obtain rfl := Option.some.inj h
    exact List.suffix_rfl
  | case4 =>
    obtain ⟨out', -, rfl⟩ := Option.map_eq_some_iff.1 h
    exact List.suffix_cons _ _
  | case6 | case7 | case8 =>
    obtain rfl := Option.some.inj h
    exact List.suffix_cons _ _
  | case9 _ _ _ _ _ _ _ _ _ _ ih =>
    obtain ⟨out', -, hrest⟩ := Option.bind_eq_some_iff.1 h
    exact (ih out' hrest).trans ((List.suffix_cons _ _).trans (List.suffix_cons _ _))
  | case12 _ _ _ _ _ _ _ _ _ ih =>
    obtain ⟨out', -, hrest⟩ := Option.bind_eq_some_iff.1 h
    exact (ih out' hrest).trans (List.suffix_cons _ _)

theorem jsonParseStringToken_suffix {cursor out : Bytes} {t : Token}
    (h : jsonParseStringToken cursor out = some t) : t.cursor <:+ cursor := by
  unfold jsonParseStringToken at h
  split_ifs at h with hsize
  · obtain rfl := Option.some.inj h
    exact List.suffix_rfl
  · cases cursor with
    | nil => exact absurd h (by simp)
    | cons c rest =>
      simp only at h
      split_ifs at h with hquote
      · obtain rfl := Option.some.inj h
        exact List.suffix_rfl
      · exact (jsonStringLoop_suffix h).trans (List.suffix_cons c rest)

theorem jsonParseFieldName_suffix {s t : Fields} {field name : Bytes} {rc : SaltStatus}
    (h : jsonParseFieldName s field = some (rc, name, t)) : t.cursor <:+ s.cursor := by
  unfold jsonParseFieldName at h
  obtain ⟨cursor, hskip, h⟩ := Option.bind_eq_some_iff.1 h
  obtain ⟨tok, htok, h⟩ := Option.bind_eq_some_iff.1 h
  have htok' := (jsonParseStringToken_suffix htok).trans (jsonSkipWs_suffix hskip)
  split_ifs at h with hok
  · obtain rfl := (Prod.mk.inj (Prod.mk.inj (Option.some.inj h)).2).2
    exact htok'
  · obtain ⟨cursor', hskip', h⟩ := Option.bind_eq_some_iff.1 h
    have hcolon := (jsonSkipWs_suffix hskip').trans htok'
    cases cursor' with
    | nil => exact absurd h (by simp)
    | cons c rest =>
      simp only at h
      split_ifs at h with hc
      · obtain rfl := (Prod.mk.inj (Prod.mk.inj (Option.some.inj h)).2).2
        exact hcolon
      · obtain ⟨cursor'', hskip'', h⟩ := Option.bind_eq_some_iff.1 h
        obtain rfl := (Prod.mk.inj (Prod.mk.inj (Option.some.inj h)).2).2
        exact (jsonSkipWs_suffix hskip'').trans ((List.suffix_cons c rest).trans hcolon)

theorem jsonParseKeyField_suffix {s t : Fields} {rc : SaltStatus}
    (h : jsonParseKeyField s = some (rc, t)) : t.cursor <:+ s.cursor := by
  unfold jsonParseKeyField at h
  obtain ⟨tok, htok, h⟩ := Option.bind_eq_some_iff.1 h
  split_ifs at h <;> obtain rfl := (Prod.mk.inj (Option.some.inj h)).2 <;>
    exact jsonParseStringToken_suffix htok

theorem jsonParseKeyIdField_suffix {s t : Fields} {rc : SaltStatus}
    (h : jsonParseKeyIdField s = some (rc, t)) : t.cursor <:+ s.cursor := by
  unfold jsonParseKeyIdField at h
  cases hid : s.keyId with
  | none =>
    rw [hid] at h
    obtain rfl := (Prod.mk.inj (Option.some.inj h)).2
    exact List.suffix_rfl
  | some keyId =>
    rw [hid] at h
    simp only at h
    split_ifs at h
    · obtain rfl := (Prod.mk.inj (Option.some.inj h)).2
      exact List.suffix_rfl
    · obtain ⟨tok, htok, h⟩ := Option.bind_eq_some_iff.1 h
      split_ifs at h <;> obtain rfl := (Prod.mk.inj (Option.some.inj h)).2 <;>
        exact jsonParseStringToken_suffix htok

theorem jsonParseKnownField_suffix {s t : Fields} {field : Bytes} {rc : SaltStatus}
    (h : jsonParseKnownField field s = some (rc, t)) : t.cursor <:+ s.cursor := by
  have hrefused {error : Option Bytes} (h : some (SaltStatus.errInput, { s with error := error }) =
      some (rc, t)) : t.cursor <:+ s.cursor := by
    obtain rfl := (Prod.mk.inj (Option.some.inj h)).2
    exact List.suffix_rfl
  unfold jsonParseKnownField at h
  split_ifs at h with hkey hset hid hset'
  · exact hrefused h
  · obtain ⟨⟨rc', s'⟩, hfield, h⟩ := Option.bind_eq_some_iff.1 h
    have hs := jsonParseKeyField_suffix hfield
    simp only at h
    split_ifs at h <;> obtain rfl := (Prod.mk.inj (Option.some.inj h)).2 <;> exact hs
  · exact hrefused h
  · obtain ⟨⟨rc', s'⟩, hfield, h⟩ := Option.bind_eq_some_iff.1 h
    have hs := jsonParseKeyIdField_suffix hfield
    simp only at h
    split_ifs at h <;> obtain rfl := (Prod.mk.inj (Option.some.inj h)).2 <;> exact hs
  · exact hrefused h

theorem jsonParseMembers_suffix {fuel : ℕ} {s t : Fields} {rc : SaltStatus}
    (h : jsonParseMembers fuel s = some (rc, t)) : t.cursor <:+ s.cursor := by
  induction fuel generalizing s with
  | zero => exact absurd h (by simp [jsonParseMembers])
  | succ fuel ih =>
    rw [jsonParseMembers] at h
    obtain ⟨⟨rc₁, field, s₁⟩, hname, h⟩ := Option.bind_eq_some_iff.1 h
    have hs₁ := jsonParseFieldName_suffix hname
    simp only at h
    split_ifs at h with hrc₁
    · obtain rfl := (Prod.mk.inj (Option.some.inj h)).2
      exact hs₁
    · obtain ⟨⟨rc₂, s₂⟩, hfield, h⟩ := Option.bind_eq_some_iff.1 h
      have hs₂ := (jsonParseKnownField_suffix hfield).trans hs₁
      simp only at h
      split_ifs at h with hrc₂
      · obtain rfl := (Prod.mk.inj (Option.some.inj h)).2
        exact hs₂
      · obtain ⟨cursor, hskip, h⟩ := Option.bind_eq_some_iff.1 h
        have hcursor := (jsonSkipWs_suffix hskip).trans hs₂
        cases cursor with
        | nil => exact absurd h (by simp)
        | cons c rest =>
          have hrest := (List.suffix_cons c rest).trans hcursor
          simp only at h
          split_ifs at h with hcomma hbrace
          · exact (ih h).trans hrest
          · obtain rfl := (Prod.mk.inj (Option.some.inj h)).2
            exact hrest
          · obtain rfl := (Prod.mk.inj (Option.some.inj h)).2
            exact hcursor

/-- No parsing function moves the cursor back. -/
structure CursorForward : Prop where
  skipWs : ∀ cursor cursor', jsonSkipWs cursor = some cursor' → cursor' <:+ cursor
  token : ∀ cursor out t, jsonParseStringToken cursor out = some t → t.cursor <:+ cursor
  fieldName : ∀ s field rc name t, jsonParseFieldName s field = some (rc, name, t) →
    t.cursor <:+ s.cursor
  knownField : ∀ field s rc t, jsonParseKnownField field s = some (rc, t) → t.cursor <:+ s.cursor
  members : ∀ fuel s rc t, jsonParseMembers fuel s = some (rc, t) → t.cursor <:+ s.cursor

/-- A run that returns, with buffers of the sizes it was given, and strings in them on success. -/
structure Confined (io : KeyOut) (rc : SaltStatus) (out : KeyOut) : Prop where
  keyB64 : out.keyB64.map List.length = io.keyB64.map List.length
  keyId : out.keyId.map List.length = io.keyId.map List.length
  error : out.error.map List.length = io.error.map List.length
  key_terminated : rc = .ok → ∃ buffer, out.keyB64 = some buffer ∧ 0 ∈ buffer
  keyId_terminated : rc = .ok → out.hasKeyId = some true → ∃ buffer, out.keyId = some buffer ∧ 0 ∈ buffer

theorem Confined.refused (io : KeyOut) (text : Bytes) :
    Confined io .errInput { io with error := cliSetError io.error text } where
  keyB64 := rfl
  keyId := rfl
  error := setErrorBuffer_length _ _
  key_terminated h := SaltStatus.noConfusion h
  keyId_terminated h := SaltStatus.noConfusion h

theorem mem_zero_of_cstr {buffer : Bytes} (h : (cstr buffer).length < buffer.length) : 0 ∈ buffer := by
  by_contra hz
  rw [cstr_of_noNul hz] at h
  exact lt_irrefl _ h

theorem Parsed.confined {keyB64 key : Bytes} {keyId error id : Option Bytes} {flag : Option Bool}
    {out : KeyOut} (h : Parsed keyB64 keyId error key id out)
    (hfits : ∀ text ∈ id, ∃ size, keyId.map List.length = some size ∧ text.length < size) :
    Confined ⟨some keyB64, keyId, flag, error⟩ .ok out := by
  obtain ⟨tail, hkey, hlen⟩ := h.keyB64
  refine ⟨by rw [hkey, Option.map_some, hlen]; rfl, h.keyId_length, by rw [h.error],
    fun _ => ⟨_, hkey, by simp⟩, fun _ hhas => ?_⟩
  cases id with
  | none =>
    rw [h.hasKeyId] at hhas
    exact absurd hhas (by simp [trim, strip_nil])
  | some text =>
    obtain ⟨size, hsize, hlt⟩ := hfits text rfl
    have hlength := h.keyId_length.trans hsize
    obtain ⟨buffer, hbuffer, rfl⟩ := Option.map_eq_some_iff.1 hlength
    have hcstr := h.keyId_cstr
    rw [hbuffer] at hcstr
    obtain ⟨given, -, hgiven⟩ := Option.map_eq_some_iff.1 hcstr.symm
    refine ⟨buffer, hbuffer, mem_zero_of_cstr ?_⟩
    have := trim_length_le text
    rw [← hgiven, Option.getD_some]
    omega

theorem SameOutSizes.confined {keyB64 : Bytes} {keyId error : Option Bytes} {flag : Option Bool}
    {out : KeyOut} {rc : SaltStatus} (h : SameOutSizes keyB64 keyId error out) (hrc : rc ≠ .ok) :
    Confined ⟨some keyB64, keyId, flag, error⟩ rc out :=
  ⟨h.keyB64, h.keyId, h.error, fun hok => absurd hok hrc, fun hok => absurd hok hrc⟩

theorem saltCliParseKeyJsonObjectStrict_confined (json : CString) (io : KeyOut) :
    ∃ rc out, saltCliParseKeyJsonObjectStrict (some json.memory) io = some (rc, out) ∧
      Confined io rc out := by
  obtain ⟨_ | keyB64, keyId, _ | flag, error⟩ := io
  · exact ⟨_, _, rfl, .refused _ _⟩
  · exact ⟨_, _, rfl, .refused _ _⟩
  · exact ⟨_, _, rfl, .refused _ _⟩
  by_cases hsize : keyB64 = []
  · subst hsize
    exact ⟨_, _, rfl, .refused _ _⟩
  obtain ⟨rc, out, hrun, hsizes, -, -, hsound, hcomplete⟩ :=
    saltCliParseKeyJsonObjectStrict_spec json.noNul [] hsize keyId error flag
  refine ⟨rc, out, hrun, ?_⟩
  by_cases hrc : rc = .ok
  · obtain ⟨key, id, hacc⟩ := hsound hrc
    rw [hrc]
    exact Parsed.confined (hcomplete key id hacc).2 hacc.keyId_fits
  · exact SameOutSizes.confined hsizes hrc

theorem saltCliParseKeyInput_confined (keyInput : CString) (keyFormat : KeyFormat) (io : KeyOut) :
    ∃ rc out, saltCliParseKeyInput (some keyInput.memory) keyFormat io = some (rc, out) ∧
      Confined io rc out := by
  obtain ⟨_ | keyB64, keyId, _ | flag, error⟩ := io
  · exact ⟨_, _, rfl, .refused _ _⟩
  · exact ⟨_, _, rfl, .refused _ _⟩
  · exact ⟨_, _, rfl, .refused _ _⟩
  by_cases hsize : keyB64 = []
  · subst hsize
    exact ⟨_, _, rfl, .refused _ _⟩
  obtain ⟨rc, out, hrun, hsizes, -, -, hsound, hcomplete⟩ :=
    saltCliParseKeyInput_eq keyInput.noNul [] keyFormat hsize keyId error flag
  refine ⟨rc, out, hrun, ?_⟩
  by_cases hrc : rc = .ok
  · obtain ⟨key, id, htext⟩ := hsound hrc
    have hparsed := (hcomplete key id htext).2
    rw [hrc]
    refine Parsed.confined hparsed fun text htextid => ?_
    cases htext with
    | raw => exact absurd htextid (by simp)
    | json _ hacc => exact hacc.keyId_fits text htextid
  · exact SameOutSizes.confined hsizes hrc

/-- Both parsers return on every input, from objects that end with the terminator and buffers of
every size, and the cursor never goes back. -/
theorem keyParsers_confined :
    (∀ (keyInput : CString) (keyFormat : KeyFormat) (io : KeyOut), ∃ rc out,
        saltCliParseKeyInput (some keyInput.memory) keyFormat io = some (rc, out) ∧
          Confined io rc out) ∧
      (∀ (json : CString) (io : KeyOut), ∃ rc out,
        saltCliParseKeyJsonObjectStrict (some json.memory) io = some (rc, out) ∧
          Confined io rc out) ∧
      CursorForward :=
  ⟨saltCliParseKeyInput_confined, saltCliParseKeyJsonObjectStrict_confined,
    fun _ _ => jsonSkipWs_suffix, fun _ _ _ => jsonParseStringToken_suffix,
    fun _ _ _ _ _ => jsonParseFieldName_suffix, fun _ _ _ _ => jsonParseKnownField_suffix,
    fun _ _ _ _ => jsonParseMembers_suffix⟩

end Salt.ParserSafety
