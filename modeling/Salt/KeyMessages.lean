import Salt.KeyInputCorrect

set_option autoImplicit false

/-!
# What the key parser says when it refuses an object

Every message is a fixed text, except the one that quotes the name of an
unsupported field. The name was decoded, so it can hold the control bytes that
the escapes stand for.
-/
namespace Salt.KeyMessages
open ByteStrings KeyParsing Trimming KeyGrammar KeyParsingCorrect KeyInputCorrect

def Printable (s : Bytes) : Prop := ∀ b ∈ s, 0x20 ≤ b

instance (s : Bytes) : Decidable (Printable s) := inferInstanceAs (Decidable (∀ b ∈ s, _))

theorem printable_append {s t : Bytes} : Printable (s ++ t) ↔ Printable s ∧ Printable t := by
  simp only [Printable, List.mem_append, or_imp, forall_and]

theorem Printable.take {s : Bytes} (h : Printable s) (n : ℕ) : Printable (s.take n) :=
  fun b hb => h b (List.mem_of_mem_take hb)

theorem Printable.noNul {s : Bytes} (h : Printable s) : 0 ∉ s := fun h0 => absurd (h 0 h0) (by decide)

def unsupportedPrefix : Bytes := ascii "JSON key object contains unsupported field '"

def unsupportedText (name : Bytes) : Bytes := unsupportedPrefix ++ name ++ ascii "'"

theorem printable_unsupported_iff (name : Bytes) (n : ℕ) :
    Printable ((unsupportedText name).take n) ↔
      Printable (name.take (n - unsupportedPrefix.length)) := by
  have hpre : Printable unsupportedPrefix := by decide
  have hquote : Printable (ascii "'") := by decide
  rw [unsupportedText, List.append_assoc, List.take_append, List.take_append, printable_append,
    printable_append]
  exact ⟨fun h => h.2.1, fun h => ⟨hpre.take n, h, hquote.take _⟩⟩

inductive Leading : Bytes → List (Bytes × Bytes) → Prop
  | nil : Leading [] []
  | cons {s t : Bytes} {m : Bytes × Bytes} {ms : List (Bytes × Bytes)} (h : Member s m)
      (tail : Leading t ms) : Leading (s ++ 44 :: t) (m :: ms)

structure Fits (ms : List (Bytes × Bytes)) (keySize : ℕ) (keyIdSize : Option ℕ) : Prop where
  names : ∀ m ∈ ms, m.1 = ascii "key" ∨ m.1 = ascii "key_id"
  key : valuesOf (ascii "key") ms = [] ∨
    ∃ key, valuesOf (ascii "key") ms = [key] ∧ key.length < keySize
  keyId : valuesOf (ascii "key_id") ms = [] ∨
    ∃ id size, valuesOf (ascii "key_id") ms = [id] ∧ keyIdSize = some size ∧ id.length < size

/-- Behind members that fit comes a field with another name. -/
structure Unsupported (s : Bytes) (ms : List (Bytes × Bytes)) (name : Bytes) : Prop where
  read : ∃ t a raw b rest, s = t ++ (a ++ 34 :: (raw ++ 34 :: (b ++ 58 :: rest))) ∧ Leading t ms ∧
    Blank a ∧ StringBody raw name ∧ Blank b
  short : name.length < 32
  not_key : name ≠ ascii "key"
  not_keyId : name ≠ ascii "key_id"

theorem Unsupported.cons {s t name : Bytes} {m : Bytes × Bytes} {ms : List (Bytes × Bytes)}
    (hm : Member s m) (h : Unsupported t ms name) : Unsupported (s ++ 44 :: t) (m :: ms) name := by
  obtain ⟨⟨u, a, raw, b, rest, rfl, hu, ha, hraw, hb⟩, hshort, hkey, hid⟩ := h
  exact ⟨⟨_, a, raw, b, rest, by simp, .cons hm hu, ha, hraw, hb⟩, hshort, hkey, hid⟩

theorem Unsupported.blank_append {a s name : Bytes} {ms : List (Bytes × Bytes)} (ha : Blank a)
    (h : Unsupported s ms name) : Unsupported (a ++ s) ms name := by
  obtain ⟨⟨t, a', raw, b, rest, rfl, ht, ha', hraw, hb⟩, hshort, hkey, hid⟩ := h
  refine ⟨?_, hshort, hkey, hid⟩
  cases ht with
  | nil => exact ⟨[], a ++ a', raw, b, rest, by simp, .nil, ha.append ha', hraw, hb⟩
  | cons hm tail => exact ⟨_, a', raw, b, rest, by simp, .cons (hm.blank_append ha) tail, ha', hraw, hb⟩

theorem Unsupported.exists_quote {s name : Bytes} {ms : List (Bytes × Bytes)}
    (h : Unsupported s ms name) :
    ∃ a w, s = a ++ 34 :: w ∧ Blank a ∧ Unsupported (34 :: w) ms name := by
  obtain ⟨⟨t, a, raw, b, rest, rfl, ht, ha, hraw, hb⟩, hshort, hkey, hid⟩ := h
  cases ht with
  | nil =>
    exact ⟨a, _, rfl, ha, ⟨⟨[], [], raw, b, rest, rfl, .nil, by simp [Blank], hraw, hb⟩, hshort, hkey,
      hid⟩⟩
  | @cons s t _ _ hm tail =>
    obtain ⟨a₁, w, rfl, ha₁, hm⟩ := hm.exists_quote
    exact ⟨a₁, w ++ 44 :: (t ++ (a ++ 34 :: (raw ++ 34 :: (b ++ 58 :: rest)))), by simp, ha₁,
      ⟨⟨_, a, raw, b, rest, by simp, .cons hm tail, ha, hraw, hb⟩, hshort, hkey, hid⟩⟩

theorem fill_some_iff (buffer : Option Bytes) (texts : List Bytes) :
    (texts.foldlM Slot.fill ⟨buffer, false⟩).isSome ↔ texts = [] ∨
      ∃ text size, texts = [text] ∧ buffer.map List.length = some size ∧ text.length < size := by
  rw [Option.isSome_iff_exists]
  simp only [Slot.foldlM_fill, Slot.fill_eq_some, Slot.mk.injEq]
  constructor
  · rintro ⟨t, ⟨rfl, -⟩ | ⟨text, rfl, b, ⟨rfl, -⟩, hlt, -⟩⟩
    · exact .inl rfl
    · exact .inr ⟨text, _, rfl, rfl, hlt⟩
  · rintro (rfl | ⟨text, size, rfl, hsize, hlt⟩)
    · exact ⟨_, .inl ⟨rfl, rfl⟩⟩
    · obtain ⟨b, rfl, rfl⟩ := Option.map_eq_some_iff.1 hsize
      exact ⟨_, .inr ⟨text, rfl, b, ⟨rfl, trivial⟩, hlt, rfl⟩⟩

theorem absorb_some_iff (keyB64 : Bytes) (keyId : Option Bytes) (ms : List (Bytes × Bytes)) :
    (ms.foldlM Slots.absorb ⟨⟨some keyB64, false⟩, ⟨keyId, false⟩⟩).isSome ↔
      Fits ms keyB64.length (keyId.map List.length) := by
  have hsplit : (ms.foldlM Slots.absorb ⟨⟨some keyB64, false⟩, ⟨keyId, false⟩⟩).isSome ↔
      (∀ m ∈ ms, m.1 = ascii "key" ∨ m.1 = ascii "key_id") ∧
      ((valuesOf (ascii "key") ms).foldlM Slot.fill ⟨some keyB64, false⟩).isSome ∧
      ((valuesOf (ascii "key_id") ms).foldlM Slot.fill ⟨keyId, false⟩).isSome := by
    simp only [Option.isSome_iff_exists, Slots.foldlM_absorb]
    constructor
    · rintro ⟨t, hnames, hkey, hid⟩
      exact ⟨hnames, ⟨_, hkey⟩, ⟨_, hid⟩⟩
    · rintro ⟨hnames, ⟨k, hkey⟩, ⟨i, hid⟩⟩
      exact ⟨⟨k, i⟩, hnames, hkey, hid⟩
  rw [hsplit, fill_some_iff, fill_some_iff]
  constructor
  · rintro ⟨hnames, hkey, hid⟩
    refine ⟨hnames, hkey.imp_right ?_, hid⟩
    rintro ⟨key, size, hvalues, hsize, hlt⟩
    exact ⟨key, hvalues, Option.some.inj hsize ▸ hlt⟩
  · rintro ⟨hnames, hkey, hid⟩
    exact ⟨hnames, hkey.imp_right fun ⟨key, hvalues, hlt⟩ => ⟨key, _, hvalues, rfl, hlt⟩, hid⟩

def Says (error error' : Option Bytes) : Prop :=
  ∃ text, Printable text ∧ error' = setErrorBuffer error text

theorem jsonParseFieldName_told {s t : Fields} {field name : Bytes} {rc : SaltStatus}
    (hrun : jsonParseFieldName s field = some (rc, name, t)) (hrc : rc ≠ .ok) :
    Says s.error t.error := by
  have hinvalid : Says s.error (jsonInvalidKeyObject s.error) := ⟨_, by decide, rfl⟩
  obtain ⟨cursor, -, hrun⟩ := Option.bind_eq_some_iff.1 hrun
  obtain ⟨tok, -, hrun⟩ := Option.bind_eq_some_iff.1 hrun
  split_ifs at hrun with hok
  · cases hrun
    exact hinvalid
  obtain ⟨cursor, -, hrun⟩ := Option.bind_eq_some_iff.1 hrun
  cases cursor with
  | nil => cases hrun
  | cons c rest =>
    simp only at hrun
    split_ifs at hrun with hcolon
    · cases hrun
      exact hinvalid
    obtain ⟨cursor, -, hrun⟩ := Option.bind_eq_some_iff.1 hrun
    cases hrun
    exact absurd rfl hrc

theorem jsonParseKeyField_told {s t : Fields} {rc : SaltStatus}
    (hrun : jsonParseKeyField s = some (rc, t)) (hrc : rc ≠ .ok) : Says s.error t.error := by
  obtain ⟨tok, -, hrun⟩ := Option.bind_eq_some_iff.1 hrun
  split_ifs at hrun with hok
  · cases hrun
    exact absurd rfl hrc
  · cases hrun
    exact ⟨_, by decide, rfl⟩

theorem jsonParseKeyIdField_told {s t : Fields} {rc : SaltStatus}
    (hrun : jsonParseKeyIdField s = some (rc, t)) (hrc : rc ≠ .ok) : Says s.error t.error := by
  have hstring : Printable (ascii "JSON key object field 'key_id' must be a string") := by decide
  unfold jsonParseKeyIdField at hrun
  cases hbuf : s.keyId with
  | none =>
    simp only [hbuf, Option.some.injEq, Prod.mk.injEq] at hrun
    exact ⟨_, hstring, by rw [← hrun.2]; rfl⟩
  | some keyId =>
    simp only [hbuf] at hrun
    split_ifs at hrun with hzero
    · cases hrun
      exact ⟨_, hstring, rfl⟩
    obtain ⟨tok, -, hrun⟩ := Option.bind_eq_some_iff.1 hrun
    split_ifs at hrun with hok
    · cases hrun
      exact absurd rfl hrc
    · cases hrun
      exact ⟨_, hstring, rfl⟩

theorem jsonParseKnownField_told {s t : Fields} {field : Bytes} {rc : SaltStatus}
    (hrun : jsonParseKnownField field s = some (rc, t)) (hrc : rc ≠ .ok) :
    Says s.error t.error ∨ cstr field ≠ ascii "key" ∧ cstr field ≠ ascii "key_id" ∧
      t.error = setErrorBuffer s.error (unsupportedText (cstr field)) := by
  unfold jsonParseKnownField jsonFieldEquals at hrun
  simp only [decide_eq_true_eq] at hrun
  split_ifs at hrun with hkey hset hid hset
  · cases hrun
    exact .inl ⟨_, by decide, rfl⟩
  · obtain ⟨⟨rc', t'⟩, hfield, hrun⟩ := Option.bind_eq_some_iff.1 hrun
    simp only at hrun
    split_ifs at hrun with hok
    · cases hrun
      exact .inl (jsonParseKeyField_told hfield hok)
    · cases hrun
      exact absurd rfl hrc
  · cases hrun
    exact .inl ⟨_, by decide, rfl⟩
  · obtain ⟨⟨rc', t'⟩, hfield, hrun⟩ := Option.bind_eq_some_iff.1 hrun
    simp only at hrun
    split_ifs at hrun with hok
    · cases hrun
      exact .inl (jsonParseKeyIdField_told hfield hok)
    · cases hrun
      exact absurd rfl hrc
  · cases hrun
    exact .inr ⟨hkey, hid, rfl⟩

/-- A refusal of the member loop says a fixed text, or quotes an unsupported field. -/
theorem jsonParseMembers_told (fuel : ℕ) {s t : Fields} {u rest : Bytes} {rc : SaltStatus}
    (hs : s.cursor = u ++ 0 :: rest) (hu : 0 ∉ u)
    (hrun : jsonParseMembers fuel s = some (rc, t)) (hrc : rc ≠ .ok) :
    Says s.error t.error ∨ ∃ ms name, (ms.foldlM Slots.absorb (slots s)).isSome ∧
      Unsupported u ms name ∧ t.error = setErrorBuffer s.error (unsupportedText name) := by
  induction fuel generalizing s u with
  | zero => cases hrun
  | succ fuel ih =>
    have hround := jsonParseMembers_round fuel hs hu
    generalize jsonParseMembers (fuel + 1) s = r at hround hrun
    cases hround with
    | unnamed hname hrc₁ _ _ =>
      cases hrun
      exact .inl (jsonParseFieldName_told hname hrc₁)
    | @refused a raw b v field _ _ _ hsplit ha hraw hshort hb hval herr hrc₁ _ _ =>
      cases hrun
      rw [← herr]
      refine (jsonParseKnownField_told hval hrc₁).imp_right fun ⟨hkey, hid, herror⟩ => ?_
      exact ⟨[], cstr field, rfl, ⟨⟨[], a, raw, b, v, hsplit, .nil, ha, hraw, hb⟩, hshort, hkey, hid⟩,
        herror⟩
    | invalid _ herr =>
      cases hrun
      exact .inl ⟨ascii "invalid JSON key object", by decide, by rw [← herr]; rfl⟩
    | @more v u' m s₂ hsplit hmember habs _ herr =>
      subst hsplit
      have hu' : 0 ∉ u' := fun h => hu (by simp [h])
      rw [← herr]
      refine (ih (s := { s₂ with cursor := u' ++ 0 :: rest }) rfl hu' hrun).imp_right ?_
      rintro ⟨ms, name, hfold, hunsupported, herror⟩
      refine ⟨m :: ms, name, ?_, hunsupported.cons hmember, herror⟩
      rw [List.foldlM_cons, habs]
      exact hfold
    | last _ _ _ _ _ =>
      cases hrun
      exact absurd rfl hrc

theorem jsonParseMembers_unsupported {u name : Bytes} {ms : List (Bytes × Bytes)}
    (h : Unsupported u ms name) {s : Fields} {rest : Bytes} {fuel : ℕ} (hu : 0 ∉ u)
    (hs : s.cursor = u ++ 0 :: rest) (hfuel : u.length < fuel)
    (hfold : (ms.foldlM Slots.absorb (slots s)).isSome) :
    ∃ t, jsonParseMembers fuel s = some (.errInput, t) ∧
      t.error = setErrorBuffer s.error (unsupportedText name) := by
  obtain ⟨⟨v, a, raw, b, w, rfl, hv, ha, hraw, hb⟩, hshort, hkey, hid⟩ := h
  induction hv generalizing s fuel with
  | nil =>
    obtain ⟨fuel, rfl⟩ : ∃ n, fuel = n + 1 := ⟨fuel - 1, by omega⟩
    simp only [List.nil_append, List.mem_append, List.mem_cons, not_or] at hu
    obtain ⟨c, w', hw, hc, hskip⟩ := jsonSkipWs_total w rest
    have hfield : cstr (written name fieldBuffer) = name := cstr_written hraw.text_noNul _
    have hname : jsonParseFieldName s fieldBuffer =
        some (.ok, written name fieldBuffer, { s with cursor := w' ++ 0 :: rest }) := by
      unfold jsonParseFieldName
      have hcursor : s.cursor = a ++ 34 :: (raw ++ 34 :: (b ++ 58 :: (w ++ 0 :: rest))) := by
        rw [hs]
        simp
      simp only [hcursor, jsonSkipWs_blank ha (show cliIsAsciiWs 34 = false by decide),
        jsonParseStringToken_complete hraw _ fieldBuffer (by rw [fieldBuffer_length]; exact hshort),
        jsonSkipWs_blank hb (show cliIsAsciiWs 58 = false by decide), hskip, Option.bind_eq_bind,
        Option.bind_some, Bool.not_true, Bool.false_eq_true, if_false, ne_eq, not_true_eq_false]
      rfl
    refine ⟨{ s with cursor := w' ++ 0 :: rest, error := setErrorBuffer s.error (unsupportedText name) },
      ?_, rfl⟩
    simp only [jsonParseMembers, hname, jsonParseKnownField, jsonFieldEquals, hfield, hkey, hid,
      Option.bind_eq_bind, Option.bind_some, ne_eq, not_true_eq_false, decide_false,
      Bool.false_eq_true, if_false, reduceCtorEq, not_false_eq_true, if_true]
    rfl
  | @cons v t m ms hm tail ih =>
    obtain ⟨fuel, rfl⟩ : ∃ n, fuel = n + 1 := ⟨fuel - 1, by omega⟩
    rw [List.foldlM_cons] at hfold
    obtain ⟨filled, hfilled⟩ := Option.isSome_iff_exists.1 hfold
    obtain ⟨slots', habs, hfold'⟩ := Option.bind_eq_some_iff.1 hfilled
    have hrest : v ++ 44 :: t ++ (a ++ 34 :: (raw ++ 34 :: (b ++ 58 :: w))) ++ 0 :: rest =
        v ++ 44 :: (t ++ (a ++ 34 :: (raw ++ 34 :: (b ++ 58 :: w))) ++ 0 :: rest) := by simp
    obtain ⟨field, s₁, t', hname, hval, hskip, hslots, herr⟩ :=
      jsonParseMember_complete hm (x := 44) (by decide) (hs.trans hrest) habs
    have hfold'' : (ms.foldlM Slots.absorb (slots t')).isSome := by
      rw [hslots, hfold']
      rfl
    have hu' : 0 ∉ t ++ (a ++ 34 :: (raw ++ 34 :: (b ++ 58 :: w))) := fun h0 => hu (by
      rw [List.append_assoc, List.cons_append]
      exact List.mem_append_right _ (List.mem_cons_of_mem _ h0))
    have hfuel' : (t ++ (a ++ 34 :: (raw ++ 34 :: (b ++ 58 :: w)))).length < fuel := by
      simp only [List.length_append, List.length_cons] at hfuel ⊢
      omega
    obtain ⟨t'', ht'', herr''⟩ := ih (s := { t' with
      cursor := t ++ (a ++ 34 :: (raw ++ 34 :: (b ++ 58 :: w))) ++ 0 :: rest }) hfold'' hu' rfl hfuel'
    refine ⟨t'', ?_, herr''.trans (congrArg (setErrorBuffer · _) herr)⟩
    simp [jsonParseMembers, hname, hval, hskip] at ht'' ⊢
    exact ht''

/-- A key object with an unsupported field behind members that fit buffers of these sizes. -/
def Quotes (json : Bytes) (keySize : ℕ) (keyIdSize : Option ℕ) (name : Bytes) : Prop :=
  ∃ a s ms, json = a ++ 123 :: s ∧ Blank a ∧ Unsupported s ms name ∧ Fits ms keySize keyIdSize

theorem quotes_dropWhile_iff {json name : Bytes} {keySize : ℕ} {keyIdSize : Option ℕ} :
    Quotes (json.dropWhile cliIsAsciiWs) keySize keyIdSize name ↔
      Quotes json keySize keyIdSize name := by
  constructor
  · rintro ⟨a, s, ms, hjson, ha, h⟩
    refine ⟨json.takeWhile cliIsAsciiWs ++ a, s, ms, ?_, (blank_takeWhile json).append ha, h⟩
    rw [List.append_assoc, ← hjson, List.takeWhile_append_dropWhile]
  · rintro ⟨a, s, ms, rfl, ha, h⟩
    exact ⟨[], s, ms, dropWhile_quote ha (by decide) _, by simp [Blank], h⟩

theorem jsonFinishKeyFields_told {s : Fields} {flag : Bool} {rc : SaltStatus} {out : KeyOut}
    (hrun : jsonFinishKeyFields s flag = some (rc, out)) (hrc : rc ≠ .ok) :
    Says s.error out.error := by
  unfold jsonFinishKeyFields at hrun
  split_ifs at hrun with hset
  · cases hrun
    exact ⟨_, by decide, rfl⟩
  obtain ⟨keyB64, -, hrun⟩ := Option.bind_eq_some_iff.1 hrun
  obtain ⟨first, -, hrun⟩ := Option.bind_eq_some_iff.1 hrun
  split_ifs at hrun with hfirst
  · cases hrun
    exact ⟨_, by decide, rfl⟩
  split at hrun
  · obtain ⟨keyId, -, hrun⟩ := Option.bind_eq_some_iff.1 hrun
    obtain ⟨first, -, hrun⟩ := Option.bind_eq_some_iff.1 hrun
    cases hrun
    exact absurd rfl hrc
  · cases hrun
    exact absurd rfl hrc

theorem saltCliParseKeyJsonObjectStrict_told {json : Bytes} (hjson : 0 ∉ json) (rest : Bytes)
    {keyB64 : Bytes} (hsize : keyB64 ≠ []) (keyId error : Option Bytes) (flag : Bool)
    {rc : SaltStatus} {out : KeyOut}
    (hrun : saltCliParseKeyJsonObjectStrict (some (json ++ 0 :: rest))
      ⟨some keyB64, keyId, some flag, error⟩ = some (rc, out)) (hrc : rc ≠ .ok) :
    Says error out.error ∨ ∃ name, Quotes json keyB64.length (keyId.map List.length) name ∧
      out.error = setErrorBuffer error (unsupportedText name) := by
  have hobject := saltCliParseKeyJsonObjectStrict_run hjson rest hsize keyId error flag
  generalize saltCliParseKeyJsonObjectStrict _ _ = r at hobject hrun
  cases hobject with
  | invalid htext =>
    cases hrun
    exact .inl ⟨_, (by decide : ∀ text ∈ objectTexts, Printable text) _ htext, rfl⟩
  | @refused a b u _ _ hsplit ha hb hu hmembers hrc₁ _ _ =>
    cases hrun
    refine (jsonParseMembers_told _ rfl hu hmembers hrc₁).imp_right ?_
    rintro ⟨ms, name, hfold, hunsupported, herror⟩
    refine ⟨name, ⟨a, b ++ u, ms, hsplit, ha, hunsupported.blank_append hb, ?_⟩, herror⟩
    rw [← clearKeyId_length]
    exact (absorb_some_iff _ _ _).1 hfold
  | trailing herr _ =>
    cases hrun
    exact .inl ⟨ascii "invalid JSON key object", by decide, by rw [herr]; rfl⟩
  | finished _ _ _ _ _ herr _ =>
    rw [← herr]
    exact .inl (jsonFinishKeyFields_told hrun hrc)

theorem saltCliParseKeyJsonObjectStrict_quotes {json name : Bytes} (hjson : 0 ∉ json)
    (rest : Bytes) {keyB64 : Bytes} (hsize : keyB64 ≠ []) (keyId error : Option Bytes)
    (flag : Bool) (h : Quotes json keyB64.length (keyId.map List.length) name) :
    ∃ out, saltCliParseKeyJsonObjectStrict (some (json ++ 0 :: rest))
        ⟨some keyB64, keyId, some flag, error⟩ = some (.errInput, out) ∧
      out.error = setErrorBuffer error (unsupportedText name) := by
  have hlen : keyB64.length ≠ 0 := fun h => hsize (List.length_eq_zero_iff.1 h)
  obtain ⟨a, s, ms, rfl, ha, hunsupported, hfits⟩ := h
  obtain ⟨a', w, rfl, ha', hquote⟩ := hunsupported.exists_quote
  simp only [List.mem_append, List.mem_cons, not_or] at hjson
  have hfuel : (34 :: w).length < (34 :: w ++ 0 :: rest).length := by simp
  obtain ⟨t, ht, herror⟩ := jsonParseMembers_unsupported hquote
    (s := ⟨34 :: w ++ 0 :: rest, keyB64, clearKeyId keyId, false, false, error⟩)
    (by simpa using hjson.2.2.2) rfl hfuel
    ((absorb_some_iff _ _ _).2 (by rw [clearKeyId_length]; exact hfits))
  refine ⟨⟨some t.keyB64, t.keyId, some false, t.error⟩, ?_, herror⟩
  have hopen : jsonSkipWs (a ++ 123 :: (a' ++ 34 :: w) ++ 0 :: rest) =
      some (123 :: (a' ++ 34 :: (w ++ 0 :: rest))) := by
    rw [← jsonSkipWs_blank ha (show cliIsAsciiWs 123 = false by decide)]
    simp
  have hfirst : jsonSkipWs (a' ++ 34 :: (w ++ 0 :: rest)) = some (34 :: (w ++ 0 :: rest)) :=
    jsonSkipWs_blank ha' (by decide) _
  rw [List.cons_append] at ht
  simp only [saltCliParseKeyJsonObjectStrict, if_neg hlen, hopen, hfirst, Option.bind_eq_bind,
    Option.bind_some, ne_eq, not_true_eq_false, if_false, if_neg (show ¬ (34 : UInt8) = 125 by decide),
    ht, reduceCtorEq, not_false_eq_true, if_true]
  rfl

theorem saltCliCopyBase64KeyInput_told {cursor keyB64 out : Bytes} {error error' : Option Bytes}
    {rc : SaltStatus}
    (hrun : saltCliCopyBase64KeyInput cursor keyB64 error = some (rc, out, error'))
    (hrc : rc ≠ .ok) : Says error error' := by
  obtain ⟨keyLen, -, hrun⟩ := Option.bind_eq_some_iff.1 hrun
  split_ifs at hrun with hfits
  · cases hrun
    exact ⟨_, by decide, rfl⟩
  obtain ⟨copied, -, hrun⟩ := Option.bind_eq_some_iff.1 hrun
  obtain ⟨trimmed, -, hrun⟩ := Option.bind_eq_some_iff.1 hrun
  obtain ⟨first, -, hrun⟩ := Option.bind_eq_some_iff.1 hrun
  split_ifs at hrun with hfirst
  · cases hrun
    exact ⟨_, by decide, rfl⟩
  · cases hrun
    exact absurd rfl hrc

theorem unsupported_noNul {json name : Bytes} {keySize : ℕ} {keyIdSize : Option ℕ}
    (h : Quotes json keySize keyIdSize name) : 0 ∉ unsupportedText name := by
  obtain ⟨a, s, ms, -, -, ⟨⟨t, a', raw, b, rest, -, -, -, hraw, -⟩, -⟩, -⟩ := h
  have hpre : 0 ∉ unsupportedPrefix := by decide
  simp [unsupportedText, hpre, hraw.text_noNul, ascii]

theorem unsupportedText_inj {name name' : Bytes} (h : unsupportedText name = unsupportedText name') :
    name = name' := by
  rw [unsupportedText, unsupportedText, List.append_assoc, List.append_assoc] at h
  exact List.append_cancel_right (List.append_cancel_left h)

/-- A text quotes one name at most: there is one message, and a large buffer holds all of it. -/
theorem Quotes.unique {json name name' : Bytes} {keySize : ℕ} {keyIdSize : Option ℕ}
    (hjson : 0 ∉ json) (hsize : keySize ≠ 0) (h : Quotes json keySize keyIdSize name)
    (h' : Quotes json keySize keyIdSize name') : name = name' := by
  obtain ⟨keyB64, hkey⟩ : ∃ keyB64 : Bytes, keyB64.length = keySize :=
    ⟨List.replicate keySize 0, List.length_replicate⟩
  obtain ⟨keyId, hkeyId⟩ : ∃ keyId : Option Bytes, keyId.map List.length = keyIdSize :=
    ⟨keyIdSize.map (List.replicate · 0), by cases keyIdSize <;> simp⟩
  subst hkey hkeyId
  have hne : keyB64 ≠ [] := fun hnil => hsize (by rw [hnil]; rfl)
  set n := (unsupportedText name).length + (unsupportedText name').length with hn
  have hbuffer : List.replicate (n + 1) (0 : UInt8) ≠ [] := by simp
  obtain ⟨out, hrun, hout⟩ := saltCliParseKeyJsonObjectStrict_quotes hjson [] hne keyId
    (some (List.replicate (n + 1) 0)) false h
  obtain ⟨out', hrun', hout'⟩ := saltCliParseKeyJsonObjectStrict_quotes hjson [] hne keyId
    (some (List.replicate (n + 1) 0)) false h'
  obtain rfl : out = out' := by simpa using hrun.symm.trans hrun'
  have hmessage := congrArg cstr (Option.some.inj (hout.symm.trans hout'))
  rw [cstr_vsnprintf hbuffer (unsupported_noNul h), cstr_vsnprintf hbuffer (unsupported_noNul h'),
    List.length_replicate, List.take_of_length_le (by omega), List.take_of_length_le (by omega)]
    at hmessage
  exact unsupportedText_inj hmessage

/-- The parser returns, and a refusal leaves a message without control bytes. -/
def MessagePrintable (r : Option (SaltStatus × KeyOut)) : Prop :=
  ∃ rc out, r = some (rc, out) ∧
    (rc = .errInput → ∃ buffer, out.error = some buffer ∧ Printable (cstr buffer))

/-- The name of an unsupported field that a parser with these buffers comes to. -/
def Quoted (json : Bytes) (io : KeyOut) (name : Bytes) : Prop :=
  ∃ keyB64, io.keyB64 = some keyB64 ∧ keyB64 ≠ [] ∧ io.hasKeyId ≠ none ∧
    Quotes json keyB64.length (io.keyId.map List.length) name

def quotedPart (name : Bytes) (errorSize : ℕ) : Bytes :=
  name.take (errorSize - 1 - unsupportedPrefix.length)

theorem messagePrintable_of_told {r : Option (SaltStatus × KeyOut)} {error : Bytes}
    (herror : error ≠ []) {rc : SaltStatus} {out : KeyOut} (hrun : r = some (rc, out))
    (h : rc ≠ .ok → Says (some error) out.error) : MessagePrintable r := by
  refine ⟨rc, out, hrun, fun hrc => ?_⟩
  obtain ⟨text, htext, hout⟩ := h (by rw [hrc]; decide)
  refine ⟨vsnprintf error text, hout, ?_⟩
  rw [cstr_vsnprintf herror htext.noNul]
  exact htext.take _

/-- A parser whose refusals say a fixed text or quote the names in `Bad`. -/
theorem messagePrintable_iff {r : Option (SaltStatus × KeyOut)} {error : Bytes}
    (herror : error ≠ []) {Bad : Bytes → Prop} (hnul : ∀ name, Bad name → 0 ∉ unsupportedText name)
    (htold : ∃ rc out, r = some (rc, out) ∧ (rc ≠ .ok → Says (some error) out.error ∨
      ∃ name, Bad name ∧ out.error = setErrorBuffer (some error) (unsupportedText name)))
    (hquotes : ∀ name, Bad name → ∃ out, r = some (.errInput, out) ∧
      out.error = setErrorBuffer (some error) (unsupportedText name)) :
    MessagePrintable r ↔ ∀ name, Bad name → Printable (quotedPart name error.length) := by
  have hmessage {name : Bytes} (hbad : Bad name) :
      cstr (vsnprintf error (unsupportedText name)) = (unsupportedText name).take (error.length - 1) :=
    cstr_vsnprintf herror (hnul name hbad)
  constructor
  · rintro ⟨rc, out, hrun, hprintable⟩ name hbad
    obtain ⟨out', hrun', hout'⟩ := hquotes name hbad
    obtain ⟨rfl, rfl⟩ : rc = .errInput ∧ out = out' := by simpa using hrun.symm.trans hrun'
    obtain ⟨buffer, hbuffer, hclean⟩ := hprintable rfl
    obtain rfl : vsnprintf error (unsupportedText name) = buffer :=
      Option.some.inj (hout'.symm.trans hbuffer)
    rw [hmessage hbad] at hclean
    exact (printable_unsupported_iff name _).1 hclean
  · intro hall
    obtain ⟨rc, out, hrun, htold⟩ := htold
    by_cases hrc : rc = .ok
    · exact messagePrintable_of_told herror hrun fun hne => absurd hrc hne
    rcases htold hrc with htold | ⟨name, hbad, hout⟩
    · exact messagePrintable_of_told herror hrun fun _ => htold
    · refine ⟨rc, out, hrun, fun _ => ⟨_, hout, ?_⟩⟩
      rw [hmessage hbad]
      exact (printable_unsupported_iff name _).2 (hall name hbad)

theorem saltCliParseKeyJsonObjectStrict_message (json : CString) {io : KeyOut} {error : Bytes}
    (hio : io.error = some error) (herror : error ≠ []) :
    MessagePrintable (saltCliParseKeyJsonObjectStrict (some json.memory) io) ↔
      ∀ name, Quoted json.bytes io name → Printable (quotedPart name error.length) := by
  have hrefused (hargs : ∀ name, ¬ Quoted json.bytes io name)
      (hrun : saltCliParseKeyJsonObjectStrict (some json.memory) io = some (.errInput,
        { io with error := cliSetError io.error (ascii "invalid JSON key parser arguments") })) :
      MessagePrintable (saltCliParseKeyJsonObjectStrict (some json.memory) io) ↔
        ∀ name, Quoted json.bytes io name → Printable (quotedPart name error.length) := by
    refine iff_of_true (messagePrintable_of_told herror hrun fun _ => ?_)
      fun name hq => absurd hq (hargs name)
    exact ⟨ascii "invalid JSON key parser arguments", by decide, by rw [hio]; rfl⟩
  obtain ⟨keyB64, keyId, flag, _⟩ := io
  obtain rfl : _ = some error := hio
  cases keyB64 with
  | none => exact hrefused (fun name ⟨_, h, _⟩ => by cases h) rfl
  | some keyB64 =>
    cases flag with
    | none => exact hrefused (fun name ⟨_, _, _, h, _⟩ => h rfl) rfl
    | some flag =>
      by_cases hsize : keyB64 = []
      · subst hsize
        exact hrefused (fun name ⟨_, h, hne, _⟩ => hne (Option.some.inj h).symm) rfl
      refine messagePrintable_iff herror (fun name ⟨_, _, _, _, h⟩ => unsupported_noNul h) ?_
        fun name ⟨_, hkey, _, _, h⟩ => ?_
      · obtain ⟨rc, out, hrun, -⟩ := saltCliParseKeyJsonObjectStrict_sound json.noNul [] hsize keyId
          (some error) flag
        refine ⟨rc, out, hrun, fun hrc => ?_⟩
        refine (saltCliParseKeyJsonObjectStrict_told json.noNul [] hsize keyId _ flag hrun hrc).imp_right
          fun ⟨name, h, hout⟩ => ⟨name, ⟨keyB64, rfl, hsize, by simp, h⟩, hout⟩
      · obtain rfl := Option.some.inj hkey
        exact saltCliParseKeyJsonObjectStrict_quotes json.noNul [] hsize keyId _ flag h

theorem jsonSkipWs_memory (text : CString) :
    ∃ w, text.bytes.dropWhile cliIsAsciiWs ++ [0] = firstByte text.bytes :: w ∧
      jsonSkipWs text.memory = some (firstByte text.bytes :: w) := by
  obtain ⟨w, hw⟩ : ∃ w, text.bytes.dropWhile cliIsAsciiWs ++ [0] = firstByte text.bytes :: w := by
    unfold firstByte
    cases text.bytes.dropWhile cliIsAsciiWs with
    | nil => exact ⟨[], rfl⟩
    | cons c v => exact ⟨v ++ [0], rfl⟩
  exact ⟨w, hw, by rw [CString.memory, jsonSkipWs_eq, hw]⟩

theorem dropWhile_noNul (text : CString) : 0 ∉ text.bytes.dropWhile cliIsAsciiWs := fun h =>
  text.noNul ((List.dropWhile_sublist _).subset h)

/-- A text read as a key object goes to the strict parser without its leading white space. -/
theorem saltCliParseKeyInput_json (json : CString) {keyFormat : KeyFormat}
    (hformat : readsAsJson keyFormat json.bytes = true) {keyB64 : Bytes} (hsize : keyB64 ≠ [])
    (keyId error : Option Bytes) (flag : Bool) :
    0 ∉ json.bytes.dropWhile cliIsAsciiWs ∧
      saltCliParseKeyInput (some json.memory) keyFormat ⟨some keyB64, keyId, some flag, error⟩ =
        saltCliParseKeyJsonObjectStrict (some (json.bytes.dropWhile cliIsAsciiWs ++ [0]))
          ⟨some keyB64, clearKeyId keyId, some false, error⟩ := by
  have hlen : keyB64.length ≠ 0 := fun h => hsize (List.length_eq_zero_iff.1 h)
  have hjson : saltCliShouldParseKeyAsJson keyFormat (firstByte json.bytes) = true := hformat
  obtain ⟨w, hw, hskip⟩ := jsonSkipWs_memory json
  refine ⟨dropWhile_noNul json, ?_⟩
  simp only [saltCliParseKeyInput, skipLeadingAsciiWs, if_neg hlen, hskip, Option.bind_eq_bind,
    Option.bind_some, hjson, Bool.not_true, Bool.false_eq_true, if_false, hw]

theorem saltCliParseKeyInput_raw (text : CString) {keyFormat : KeyFormat}
    (hformat : readsAsJson keyFormat text.bytes = false) {keyB64 : Bytes} (hsize : keyB64 ≠ [])
    (keyId error : Option Bytes) (flag : Bool) :
    ∃ rc out error', saltCliParseKeyInput (some text.memory) keyFormat
        ⟨some keyB64, keyId, some flag, error⟩ =
          some (rc, ⟨some out, clearKeyId keyId, some false, error'⟩) ∧
      (rc ≠ .ok → Says error error') := by
  have hlen : keyB64.length ≠ 0 := fun h => hsize (List.length_eq_zero_iff.1 h)
  have hraw : saltCliShouldParseKeyAsJson keyFormat (firstByte text.bytes) = false := hformat
  obtain ⟨w, hw, hskip⟩ := jsonSkipWs_memory text
  obtain ⟨rc, out, error', hcopy, -⟩ :=
    saltCliCopyBase64KeyInput_eq (dropWhile_noNul text) [] keyB64 error
  refine ⟨rc, out, error', ?_, saltCliCopyBase64KeyInput_told hcopy⟩
  rw [hw] at hcopy
  simp only [saltCliParseKeyInput, skipLeadingAsciiWs, if_neg hlen, hskip, Option.bind_eq_bind,
    Option.bind_some, hraw, Bool.not_false, if_true, hcopy]
  rfl

theorem saltCliParseKeyInput_message (json : CString) (keyFormat : KeyFormat) {io : KeyOut}
    {error : Bytes} (hio : io.error = some error) (herror : error ≠ []) :
    MessagePrintable (saltCliParseKeyInput (some json.memory) keyFormat io) ↔
      ∀ name, readsAsJson keyFormat json.bytes = true ∧ Quoted json.bytes io name →
        Printable (quotedPart name error.length) := by
  have hrefused (hargs : ∀ name, ¬ Quoted json.bytes io name)
      (hrun : saltCliParseKeyInput (some json.memory) keyFormat io = some (.errInput,
        { io with error := cliSetError io.error (ascii "invalid key input arguments") })) :
      MessagePrintable (saltCliParseKeyInput (some json.memory) keyFormat io) ↔
        ∀ name, readsAsJson keyFormat json.bytes = true ∧ Quoted json.bytes io name →
          Printable (quotedPart name error.length) := by
    refine iff_of_true (messagePrintable_of_told herror hrun fun _ => ?_)
      fun name hq => absurd hq.2 (hargs name)
    exact ⟨ascii "invalid key input arguments", by decide, by rw [hio]; rfl⟩
  obtain ⟨keyB64, keyId, flag, _⟩ := io
  obtain rfl : _ = some error := hio
  cases keyB64 with
  | none => exact hrefused (fun name ⟨_, h, _⟩ => by cases h) rfl
  | some keyB64 =>
    cases flag with
    | none => exact hrefused (fun name ⟨_, _, _, h, _⟩ => h rfl) rfl
    | some flag =>
      by_cases hsize : keyB64 = []
      · subst hsize
        exact hrefused (fun name ⟨_, h, hne, _⟩ => hne (Option.some.inj h).symm) rfl
      cases hformat : readsAsJson keyFormat json.bytes with
      | false =>
        obtain ⟨rc, out, error', hrun, htold⟩ :=
          saltCliParseKeyInput_raw json hformat hsize keyId (some error) flag
        exact iff_of_true (messagePrintable_of_told herror hrun htold)
          fun name h => absurd h.1 (by decide)
      | true =>
        obtain ⟨hnul, hrun⟩ := saltCliParseKeyInput_json json hformat hsize keyId (some error) flag
        rw [hrun]
        refine (saltCliParseKeyJsonObjectStrict_message ⟨_, hnul⟩ rfl herror).trans ?_
        simp only [Quoted, quotes_dropWhile_iff, clearKeyId_length, true_and, ne_eq, reduceCtorEq,
          not_false_eq_true]

/-- Both parsers leave a printable message just when the part of the unsupported name that the
message has room for is printable. -/
theorem keyMessages_printable_iff (json : CString) (keyFormat : KeyFormat) (io : KeyOut)
    (error : Bytes) (hio : io.error = some error) (hsize : 1 ≤ error.length) :
    (MessagePrintable (saltCliParseKeyJsonObjectStrict (some json.memory) io) ↔
      ∀ name, Quoted json.bytes io name → Printable (quotedPart name error.length)) ∧
    (MessagePrintable (saltCliParseKeyInput (some json.memory) keyFormat io) ↔
      ∀ name, readsAsJson keyFormat json.bytes = true ∧ Quoted json.bytes io name →
        Printable (quotedPart name error.length)) := by
  have herror : error ≠ [] := List.length_pos_iff.1 hsize
  exact ⟨saltCliParseKeyJsonObjectStrict_message json hio herror,
    saltCliParseKeyInput_message json keyFormat hio herror⟩

def cliKeyOut : KeyOut :=
  ⟨some (List.replicate (saltMaxKeyInputLen + 1) 0), some (List.replicate (saltMaxKeyIdLen + 1) 0),
    some false, some (List.replicate errorSize 0)⟩

theorem keyMessages_printable_cli :
    let json : CString := CString.ofAscii "\x7b\"x\":\"\"\x7d"
    MessagePrintable (saltCliParseKeyInput (some json.memory) .auto cliKeyOut) := by
  intro json
  have hquotes : Quotes json.bytes (saltMaxKeyInputLen + 1) (some (saltMaxKeyIdLen + 1)) (ascii "x") := by
    refine ⟨[], ascii "\"x\":\"\"\x7d", [], rfl, by decide, ?_, by simp, .inl rfl, .inl rfl⟩
    exact ⟨⟨[], [], ascii "x", [], ascii "\"\"\x7d", rfl, .nil, by decide,
      .plain (by decide) (by decide) (by decide) .nil, by decide⟩, by decide, by decide, by decide⟩
  refine (keyMessages_printable_iff json .auto cliKeyOut (List.replicate errorSize 0) rfl
    (by rw [List.length_replicate]; decide)).2.2 ?_
  rintro name ⟨-, keyB64, hkey, -, -, hname⟩
  obtain rfl := Option.some.inj hkey
  simp only [cliKeyOut, Option.map_some, List.length_replicate] at hname
  obtain rfl := hquotes.unique json.noNul (Nat.succ_ne_zero _) hname
  rw [List.length_replicate]
  decide

/-- The escape of a line feed in a name. -/
theorem keyMessages_not_printable :
    let json : CString := CString.ofAscii "\x7b\"\\n\":\"\"\x7d"
    (∃ out buffer, saltCliParseKeyJsonObjectStrict (some json.memory) cliKeyOut =
      some (.errInput, out) ∧ out.error = some buffer ∧ 10 ∈ cstr buffer) ∧
    (∃ out buffer, saltCliParseKeyInput (some json.memory) .auto cliKeyOut =
      some (.errInput, out) ∧ out.error = some buffer ∧ 10 ∈ cstr buffer) := by
  intro json
  have hne {n : ℕ} (hn : n ≠ 0) : List.replicate n (0 : UInt8) ≠ [] :=
    fun h => hn ((List.replicate_eq_nil_iff _).1 h)
  have hkey : List.replicate (saltMaxKeyInputLen + 1) (0 : UInt8) ≠ [] := hne (by decide)
  have hquotes (keySize : ℕ) (keyIdSize : Option ℕ) : Quotes json.bytes keySize keyIdSize [10] := by
    refine ⟨[], ascii "\"\\n\":\"\"\x7d", [], rfl, by decide, ?_, ?_⟩
    · exact ⟨⟨[], [], ascii "\\n", [], ascii "\"\"\x7d", rfl, .nil, by decide,
        .escape .newline .nil, by decide⟩, by decide, by decide, by decide⟩
    · exact ⟨by simp, .inl rfl, .inl rfl⟩
  have hten : 10 ∈ cstr (vsnprintf (List.replicate errorSize 0) (unsupportedText [10])) := by
    rw [cstr_vsnprintf (hne (by decide)) (by decide), List.length_replicate]
    decide
  have hformat : readsAsJson .auto json.bytes = true := by decide
  obtain ⟨hnul, hinput⟩ := saltCliParseKeyInput_json json hformat hkey
    (some (List.replicate (saltMaxKeyIdLen + 1) 0)) (some (List.replicate errorSize 0)) false
  obtain ⟨out, hrun, hout⟩ := saltCliParseKeyJsonObjectStrict_quotes json.noNul [] hkey
    (some (List.replicate (saltMaxKeyIdLen + 1) 0)) (some (List.replicate errorSize 0)) false
    (hquotes _ _)
  obtain ⟨out', hrun', hout'⟩ := saltCliParseKeyJsonObjectStrict_quotes hnul [] hkey
    (clearKeyId (some (List.replicate (saltMaxKeyIdLen + 1) 0))) (some (List.replicate errorSize 0))
    false (quotes_dropWhile_iff.2 (hquotes _ _))
  exact ⟨⟨out, _, hrun, hout, hten⟩, out', _, hinput.trans hrun', hout', hten⟩

end Salt.KeyMessages
