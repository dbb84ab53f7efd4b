import Salt.KeyGrammar

set_option autoImplicit false

/-!
# The strict key parser accepts its grammar

Soundness and totality are proved together, following the cursor through a
terminated string `u ++ 0 :: rest`; completeness follows the derivation.
-/
namespace Salt.KeyParsingCorrect
open ByteStrings KeyParsing Trimming KeyGrammar

theorem jsonSkipWs_blank {a : Bytes} (ha : Blank a) {c : UInt8} (hc : cliIsAsciiWs c = false)
    (rest : Bytes) : jsonSkipWs (a ++ c :: rest) = some (c :: rest) := by
  induction a with
  | nil => simp [jsonSkipWs, hc]
  | cons x a ih =>
    have hx : cliIsAsciiWs x = true := ha x (by simp)
    have hx0 : x ≠ 0 := fun h0 => by simp [h0, ws_zero] at hx
    rw [List.cons_append, jsonSkipWs, if_pos ⟨hx0, hx⟩]
    exact ih fun b hb => ha b (by simp [hb])

theorem jsonSkipWs_eq (u rest : Bytes) :
    jsonSkipWs (u ++ 0 :: rest) = some (u.dropWhile cliIsAsciiWs ++ 0 :: rest) := by
  conv_lhs => rw [← List.takeWhile_append_dropWhile (p := cliIsAsciiWs) (l := u)]
  rw [List.append_assoc]
  cases hd : u.dropWhile cliIsAsciiWs with
  | nil => exact jsonSkipWs_blank (blank_takeWhile u) ws_zero rest
  | cons c v =>
    have hc := List.head?_dropWhile_not cliIsAsciiWs u
    rw [hd] at hc
    exact jsonSkipWs_blank (blank_takeWhile u) (by simpa using hc) _

theorem jsonSkipWs_total (u rest : Bytes) : ∃ a v, u = a ++ v ∧ Blank a ∧
    jsonSkipWs (u ++ 0 :: rest) = some (v ++ 0 :: rest) :=
  ⟨_, _, List.takeWhile_append_dropWhile.symm, blank_takeWhile u, jsonSkipWs_eq u rest⟩

theorem set_append_cons (p q : Bytes) (v : UInt8) (h : 0 < q.length) :
    (p ++ q).set p.length v = p ++ v :: q.drop 1 := by
  obtain ⟨x, q, rfl⟩ := List.exists_cons_of_length_pos h
  simp

theorem store_append (p q : Bytes) (v : UInt8) (h : 0 < q.length) :
    store (p ++ q) p.length v = some (p ++ [v] ++ q.drop 1) := by
  rw [store_of_lt (by simp; omega), set_append_cons p q v h]
  simp

theorem written_cons (p q text : Bytes) (v : UInt8) :
    p ++ [v] ++ written text (q.drop 1) = p ++ written (v :: text) q := by
  simp [written, Nat.add_comm, Nat.add_left_comm]

theorem jsonStringLoop_plain {c : UInt8} (hc : 0x20 ≤ c) (hquote : c ≠ 34) (hback : c ≠ 92)
    (cursor p q : Bytes) (hq : 1 < q.length) :
    jsonStringLoop (c :: cursor) p.length (p ++ q) =
      jsonStringLoop cursor (p ++ [c]).length (p ++ [c] ++ q.drop 1) := by
  have hlt : ¬ c < 0x20 := UInt8.not_lt.2 hc
  rw [jsonStringLoop.eq_def]
  simp only [if_neg (plain_ne_zero hc), if_neg hquote, if_neg hback, if_neg hlt,
    store_append p q c (by omega), Option.bind_some, List.length_append, List.length_singleton]
  rw [if_neg (by omega)]

theorem jsonStringLoop_backslash {e : UInt8} (he : e ≠ 0) (cursor : Bytes) (i : ℕ) (out : Bytes) :
    jsonStringLoop (92 :: e :: cursor) i out =
      if out.length ≤ i + 1 then some ⟨false, e :: cursor, out⟩
      else match escapeLookup e with
        | none => some ⟨false, e :: cursor, out⟩
        | some v => (store out i v).bind fun out => jsonStringLoop cursor (i + 1) out := by
  rw [jsonStringLoop.eq_def]
  have hzero : (92 : UInt8) ≠ 0 := by decide
  have hquote : (92 : UInt8) ≠ 34 := by decide
  exact (if_neg hzero).trans ((if_neg hquote).trans ((if_pos rfl).trans (if_neg he)))

theorem jsonStringLoop_escape {e v : UInt8} (he : Escape e v) (cursor p q : Bytes)
    (hq : 1 < q.length) :
    jsonStringLoop (92 :: e :: cursor) p.length (p ++ q) =
      jsonStringLoop cursor (p ++ [v]).length (p ++ [v] ++ q.drop 1) := by
  rw [jsonStringLoop_backslash he.ne_zero.1, if_neg (by rw [List.length_append]; omega)]
  simp only [escapeLookup_eq_some.2 he, store_append p q v (by omega), Option.bind_some,
    List.length_append, List.length_singleton]

theorem jsonStringLoop_quote (cursor p q : Bytes) (hq : 0 < q.length) :
    jsonStringLoop (34 :: cursor) p.length (p ++ q) =
      some ⟨true, cursor, p ++ written [] q⟩ := by
  rw [jsonStringLoop.eq_def]
  simp only [if_neg (show (34 : UInt8) ≠ 0 by decide), if_true]
  rw [if_neg (by rw [List.length_append]; omega), store_append p q 0 hq]
  simp [written]

theorem jsonStringLoop_complete {raw text : Bytes} (h : StringBody raw text) (rest p q : Bytes)
    (hq : text.length < q.length) :
    jsonStringLoop (raw ++ 34 :: rest) p.length (p ++ q) =
      some ⟨true, rest, p ++ written text q⟩ := by
  induction h generalizing p q with
  | nil => exact jsonStringLoop_quote rest p q hq
  | plain hc hquote hback _ ih =>
    rw [List.length_cons] at hq
    rw [List.cons_append, jsonStringLoop_plain hc hquote hback _ p q (by omega),
      ih _ _ (by rw [List.length_drop]; omega), written_cons]
  | escape he _ ih =>
    rw [List.length_cons] at hq
    rw [List.cons_append, List.cons_append, jsonStringLoop_escape he _ p q (by omega),
      ih _ _ (by rw [List.length_drop]; omega), written_cons]

/-- What a token over a terminated string did to its buffer, and what it read if it succeeded. -/
structure TokenSpec (u rest p q : Bytes) (t : Token) : Prop where
  length : t.out.length = p.length + q.length
  read : t.ok = true → ∃ raw text v, u = raw ++ 34 :: v ∧ StringBody raw text ∧
    text.length < q.length ∧ t.cursor = v ++ 0 :: rest ∧ t.out = p ++ written text q

theorem TokenSpec.refused (u rest p q cursor : Bytes) :
    TokenSpec u rest p q ⟨false, cursor, p ++ q⟩ :=
  ⟨by simp, by simp⟩

theorem TokenSpec.stored {u rest p q : Bytes} {x : UInt8} {t : Token} (hq : 1 < q.length)
    (h : TokenSpec u rest (p ++ [x]) (q.drop 1) t) (lead : Bytes)
    (hlead : ∀ raw text, StringBody raw text → StringBody (lead ++ raw) (x :: text)) :
    TokenSpec (lead ++ u) rest p q t := by
  refine ⟨?_, fun hok => ?_⟩
  · rw [h.length]
    simp only [List.length_append, List.length_singleton, List.length_drop]
    omega
  · obtain ⟨raw, text, v, hu, hbody, hlt, hcur, hout⟩ := h.read hok
    rw [List.length_drop] at hlt
    refine ⟨lead ++ raw, x :: text, v, by rw [hu, List.append_assoc], hlead _ _ hbody, ?_, hcur, ?_⟩
    · rw [List.length_cons]
      omega
    · rw [hout, written_cons]

theorem jsonStringLoop_total (u rest p q : Bytes) (hu : 0 ∉ u) :
    ∃ t, jsonStringLoop (u ++ 0 :: rest) p.length (p ++ q) = some t ∧
      TokenSpec u rest p q t := by
  induction hn : u.length using Nat.strong_induction_on generalizing u p q with
  | _ n ih =>
    subst hn
    cases u with
    | nil =>
      refine ⟨⟨false, 0 :: rest, p ++ q⟩, ?_, .refused ..⟩
      rw [List.nil_append, jsonStringLoop.eq_def]
      simp only [if_true]
    | cons c u =>
      simp only [List.mem_cons, not_or] at hu
      have hc0 : c ≠ 0 := Ne.symm hu.1
      by_cases hquote : c = 34
      · subst hquote
        by_cases hq : 0 < q.length
        · refine ⟨_, jsonStringLoop_quote _ p q hq, ?_, fun _ => ?_⟩
          · rw [List.length_append, written_length (by simpa using hq)]
          · exact ⟨[], [], u, rfl, .nil, hq, rfl, rfl⟩
        · refine ⟨⟨false, 34 :: (u ++ 0 :: rest), p ++ q⟩, ?_, .refused ..⟩
          rw [List.cons_append, jsonStringLoop.eq_def]
          simp only [if_neg hc0, if_true]
          rw [if_pos (by rw [List.length_append]; omega)]
      · by_cases hback : c = 92
        · subst hback
          cases u with
          | nil =>
            refine ⟨⟨false, 0 :: rest, p ++ q⟩, ?_, .refused ..⟩
            rw [List.cons_append, jsonStringLoop.eq_def]
            simp only [if_neg hc0, if_neg hquote, if_true, List.nil_append]
          | cons e u =>
            simp only [List.mem_cons, not_or] at hu
            have he0 : e ≠ 0 := Ne.symm hu.2.1
            rw [List.cons_append, List.cons_append]
            by_cases hq : 1 < q.length
            · cases he : escapeLookup e with
              | none =>
                refine ⟨⟨false, e :: (u ++ 0 :: rest), p ++ q⟩, ?_, .refused ..⟩
                rw [jsonStringLoop_backslash he0, he, if_neg (by rw [List.length_append]; omega)]
              | some v =>
                have hesc := escapeLookup_eq_some.1 he
                obtain ⟨t, ht, hspec⟩ :=
                  ih u.length (by simp only [List.length_cons]; omega) u (p ++ [v]) (q.drop 1)
                    hu.2.2 rfl
                refine ⟨t, ?_, hspec.stored hq [92, e] fun _ _ h => .escape hesc h⟩
                rw [jsonStringLoop_escape hesc _ p q hq, ht]
            · refine ⟨⟨false, e :: (u ++ 0 :: rest), p ++ q⟩, ?_, .refused ..⟩
              rw [jsonStringLoop_backslash he0, if_pos (by rw [List.length_append]; omega)]
        · rw [List.cons_append]
          by_cases hctl : c < 0x20
          · refine ⟨⟨false, c :: (u ++ 0 :: rest), p ++ q⟩, ?_, .refused ..⟩
            rw [jsonStringLoop.eq_def]
            simp only [if_neg hc0, if_neg hquote, if_neg hback, if_pos hctl]
          · have hc : 0x20 ≤ c := UInt8.not_lt.1 hctl
            by_cases hq : 1 < q.length
            · obtain ⟨t, ht, hspec⟩ := ih u.length (by simp) u (p ++ [c]) (q.drop 1) hu.2 rfl
              refine ⟨t, ?_, hspec.stored hq [c] fun _ _ h => .plain hc hquote hback h⟩
              rw [jsonStringLoop_plain hc hquote hback _ p q hq, ht]
            · refine ⟨⟨false, c :: (u ++ 0 :: rest), p ++ q⟩, ?_, .refused ..⟩
              rw [jsonStringLoop.eq_def]
              simp only [if_neg hc0, if_neg hquote, if_neg hback, if_neg hctl]
              rw [if_pos (by rw [List.length_append]; omega)]

theorem jsonParseStringToken_total (u rest out : Bytes) (hu : 0 ∉ u) :
    ∃ t, jsonParseStringToken (u ++ 0 :: rest) out = some t ∧ t.out.length = out.length ∧
      (t.ok = true → ∃ raw text v, u = 34 :: (raw ++ 34 :: v) ∧ StringBody raw text ∧
        text.length < out.length ∧ t.cursor = v ++ 0 :: rest ∧ t.out = written text out) := by
  unfold jsonParseStringToken
  split_ifs with hout
  · exact ⟨_, rfl, rfl, by simp⟩
  · cases u with
    | nil => exact ⟨_, rfl, rfl, by simp⟩
    | cons c u =>
      simp only [List.mem_cons, not_or] at hu
      simp only [List.cons_append]
      by_cases hc : c = 34
      · subst hc
        obtain ⟨t, ht, hlen, hread⟩ := jsonStringLoop_total u rest [] out hu.2
        refine ⟨t, ?_, by simpa using hlen, fun hok => ?_⟩
        · simpa using ht
        · obtain ⟨raw, text, v, rfl, hbody, hlt, hcur, hval⟩ := hread hok
          exact ⟨raw, text, v, rfl, hbody, hlt, hcur, by simpa using hval⟩
      · exact ⟨_, by rw [if_pos hc], rfl, by simp⟩

theorem jsonParseStringToken_complete {raw text : Bytes} (h : StringBody raw text)
    (rest out : Bytes) (hout : text.length < out.length) :
    jsonParseStringToken (34 :: (raw ++ 34 :: rest)) out = some ⟨true, rest, written text out⟩ := by
  rw [jsonParseStringToken, if_neg (by omega)]
  simpa using jsonStringLoop_complete h rest [] out hout

def slots (s : Fields) : Slots := ⟨⟨some s.keyB64, s.keySet⟩, ⟨s.keyId, s.keyIdSet⟩⟩

structure SameSizes (s t : Fields) : Prop where
  keyB64 : t.keyB64.length = s.keyB64.length
  keyId : t.keyId.map List.length = s.keyId.map List.length
  error : t.error.map List.length = s.error.map List.length

theorem SameSizes.trans {s t r : Fields} (h : SameSizes s t) (h' : SameSizes t r) :
    SameSizes s r :=
  ⟨h'.keyB64.trans h.keyB64, h'.keyId.trans h.keyId, h'.error.trans h.error⟩

theorem SameSizes.moved (s : Fields) (cursor : Bytes) : SameSizes s { s with cursor := cursor } :=
  ⟨rfl, rfl, rfl⟩

theorem SameSizes.refused (s : Fields) (cursor text : Bytes) :
    SameSizes s { s with cursor := cursor, error := setErrorBuffer s.error text } :=
  ⟨rfl, rfl, setErrorBuffer_length _ _⟩

theorem fieldBuffer_length : fieldBuffer.length = 32 := by simp [fieldBuffer]

theorem cstr_written {text : Bytes} (h : 0 ∉ text) (buffer : Bytes) :
    cstr (written text buffer) = text := cstr_append_zero h _

theorem jsonParseFieldName_total {s : Fields} {u rest : Bytes} (hs : s.cursor = u ++ 0 :: rest)
    (hu : 0 ∉ u) :
    ∃ rc field t, jsonParseFieldName s fieldBuffer = some (rc, field, t) ∧ SameSizes s t ∧
      (rc ≠ .ok → Reported s.error t.error) ∧
      (rc = .ok → ∃ a raw name b c v, u = a ++ 34 :: (raw ++ 34 :: (b ++ 58 :: (c ++ v))) ∧
        Blank a ∧ StringBody raw name ∧ name.length < 32 ∧ Blank b ∧ Blank c ∧ cstr field = name ∧
        t = { s with cursor := v ++ 0 :: rest }) := by
  obtain ⟨a, u₁, rfl, ha, hskip⟩ := jsonSkipWs_total u rest
  rw [List.mem_append, not_or] at hu
  obtain ⟨tok, htok, -, hread⟩ := jsonParseStringToken_total u₁ rest fieldBuffer hu.2
  unfold jsonParseFieldName
  simp only [hs, hskip, htok, Option.bind_eq_bind, Option.bind_some]
  cases hok : tok.ok with
  | false => exact ⟨_, _, _, rfl, .refused .., fun _ => setErrorBuffer_reported _ (by decide), by simp⟩
  | true =>
    obtain ⟨raw, name, u₂, rfl, hbody, hshort, hcur, hout⟩ := hread hok
    rw [fieldBuffer_length] at hshort
    obtain ⟨b, u₃, rfl, hb, hskip⟩ := jsonSkipWs_total u₂ rest
    simp only [hcur, hskip, Bool.not_true, Bool.false_eq_true, if_false, Option.bind_some]
    cases u₃ with
    | nil => exact ⟨_, _, _, rfl, .refused .., fun _ => setErrorBuffer_reported _ (by decide), by simp⟩
    | cons x u₃ =>
      simp only [List.cons_append]
      by_cases hx : x = 58
      · subst hx
        obtain ⟨c, v, rfl, hc, hskip⟩ := jsonSkipWs_total u₃ rest
        simp only [hskip, ne_eq, not_true_eq_false, if_false, Option.bind_some]
        refine ⟨_, _, _, rfl, .moved .., by simp, fun _ => ?_⟩
        refine ⟨a, raw, name, b, c, v, rfl, ha, hbody, hshort, hb, hc, ?_, rfl⟩
        rw [hout, cstr_written hbody.text_noNul]
      · rw [if_pos hx]
        exact ⟨_, _, _, rfl, .refused .., fun _ => setErrorBuffer_reported _ (by decide), by simp⟩

theorem jsonParseFieldName_complete {s : Fields} {a raw name b c : Bytes} {x : UInt8} {w : Bytes}
    (ha : Blank a) (hbody : StringBody raw name) (hb : Blank b) (hc : Blank c)
    (hx : cliIsAsciiWs x = false) (hlen : name.length < 32)
    (hs : s.cursor = a ++ 34 :: (raw ++ 34 :: (b ++ 58 :: (c ++ x :: w)))) :
    jsonParseFieldName s fieldBuffer =
      some (.ok, written name fieldBuffer, { s with cursor := x :: w }) := by
  unfold jsonParseFieldName
  simp only [hs, jsonSkipWs_blank ha (show cliIsAsciiWs 34 = false by decide),
    jsonParseStringToken_complete hbody _ fieldBuffer (by rw [fieldBuffer_length]; exact hlen),
    jsonSkipWs_blank hb (show cliIsAsciiWs 58 = false by decide), jsonSkipWs_blank hc hx,
    Option.bind_eq_bind, Option.bind_some, Bool.not_true, Bool.false_eq_true, if_false, ne_eq,
    not_true_eq_false]
  rfl

theorem jsonParseKnownField_total {s : Fields} {u rest : Bytes} (hs : s.cursor = u ++ 0 :: rest)
    (hu : 0 ∉ u) (field : Bytes) :
    ∃ rc t, jsonParseKnownField field s = some (rc, t) ∧ SameSizes s t ∧
      (rc ≠ .ok → Reported s.error t.error) ∧
      (rc = .ok → ∃ raw value v, u = 34 :: (raw ++ 34 :: v) ∧ StringBody raw value ∧
        (slots s).absorb (cstr field, value) = some (slots t) ∧ t.cursor = v ++ 0 :: rest ∧
        t.error = s.error) := by
  unfold jsonParseKnownField
  by_cases hk : cstr field = ascii "key"
  · simp only [jsonFieldEquals, hk, decide_true, if_true]
    cases hset : s.keySet with
    | true => exact ⟨_, _, rfl, ⟨rfl, rfl, setErrorBuffer_length _ _⟩,
        fun _ => setErrorBuffer_reported _ (by decide), by simp⟩
    | false =>
      obtain ⟨tok, htok, hlen, hread⟩ := jsonParseStringToken_total u rest s.keyB64 hu
      simp only [jsonParseKeyField, hs, htok, Option.bind_eq_bind, Option.bind_some,
        Bool.false_eq_true, if_false]
      cases hok : tok.ok with
      | false => exact ⟨_, _, rfl, ⟨hlen, rfl, setErrorBuffer_length _ _⟩,
        fun _ => setErrorBuffer_reported _ (by decide), by simp⟩
      | true =>
        obtain ⟨raw, value, v, rfl, hbody, hlt, hcur, hout⟩ := hread hok
        refine ⟨_, _, rfl, ⟨hlen, rfl, rfl⟩, by simp, fun _ => ⟨raw, value, v, rfl, hbody, ?_, hcur, rfl⟩⟩
        simp [Slots.absorb, Slot.fill, slots, hset, hlt, hout]
  · simp only [jsonFieldEquals, hk, decide_false, Bool.false_eq_true, if_false]
    by_cases hi : cstr field = ascii "key_id"
    · simp only [hi, decide_true, if_true]
      cases hset : s.keyIdSet with
      | true => exact ⟨_, _, rfl, ⟨rfl, rfl, setErrorBuffer_length _ _⟩,
        fun _ => setErrorBuffer_reported _ (by decide), by simp⟩
      | false =>
        simp only [jsonParseKeyIdField, Bool.false_eq_true, if_false]
        cases hbuf : s.keyId with
        | none => exact ⟨_, _, rfl, ⟨rfl, by simp [hbuf], setErrorBuffer_length _ _⟩,
        fun _ => setErrorBuffer_reported _ (by decide), by simp⟩
        | some keyId =>
          obtain ⟨tok, htok, hlen, hread⟩ := jsonParseStringToken_total u rest keyId hu
          by_cases h0 : keyId.length = 0
          · simp only [h0, if_true, Option.bind_eq_bind, Option.bind_some]
            exact ⟨_, _, rfl, ⟨rfl, by simp [hbuf], setErrorBuffer_length _ _⟩,
        fun _ => setErrorBuffer_reported _ (by decide), by simp⟩
          · simp only [if_neg h0, hs, htok, Option.bind_eq_bind, Option.bind_some]
            cases hok : tok.ok with
            | false =>
              exact ⟨_, _, rfl, ⟨rfl, by simp [hbuf, hlen], setErrorBuffer_length _ _⟩,
        fun _ => setErrorBuffer_reported _ (by decide), by simp⟩
            | true =>
              obtain ⟨raw, value, v, rfl, hbody, hlt, hcur, hout⟩ := hread hok
              refine ⟨_, _, rfl, ⟨rfl, by simp [hbuf, hlen], rfl⟩, by simp,
                fun _ => ⟨raw, value, v, rfl, hbody, ?_, hcur, rfl⟩⟩
              have hne : ascii "key_id" ≠ ascii "key" := by decide
              simp [Slots.absorb, Slot.fill, slots, hset, hlt, hout, hbuf, hne]
    · simp only [hi, decide_false, Bool.false_eq_true, if_false]
      exact ⟨_, _, rfl, .refused s s.cursor _,
        fun _ => setErrorBuffer_reported _ (by simp [ascii, cstr]), by simp⟩

theorem jsonParseKnownField_complete {s : Fields} {raw value w field : Bytes} {filled : Slots}
    (hbody : StringBody raw value) (hs : s.cursor = 34 :: (raw ++ 34 :: w))
    (habs : (slots s).absorb (cstr field, value) = some filled) :
    ∃ t, jsonParseKnownField field s = some (.ok, t) ∧ slots t = filled ∧ t.cursor = w ∧
      t.error = s.error := by
  unfold Slots.absorb at habs
  unfold jsonParseKnownField
  by_cases hk : cstr field = ascii "key"
  · rw [if_pos hk, Option.map_eq_some_iff] at habs
    obtain ⟨key, hfill, rfl⟩ := habs
    obtain ⟨buffer, hslot, hlt, rfl⟩ := Slot.fill_eq_some.1 hfill
    simp only [slots, Slot.mk.injEq, Option.some.injEq] at hslot
    obtain ⟨rfl, hset⟩ := hslot
    simp only [jsonFieldEquals, hk, decide_true, if_true, hset, Bool.false_eq_true, if_false,
      jsonParseKeyField, hs, jsonParseStringToken_complete hbody w s.keyB64 hlt,
      Option.bind_eq_bind, Option.bind_some]
    exact ⟨_, rfl, rfl, rfl, rfl⟩
  · rw [if_neg hk] at habs
    by_cases hi : cstr field = ascii "key_id"
    · rw [if_pos hi, Option.map_eq_some_iff] at habs
      obtain ⟨key, hfill, rfl⟩ := habs
      obtain ⟨buffer, hslot, hlt, rfl⟩ := Slot.fill_eq_some.1 hfill
      simp only [slots, Slot.mk.injEq] at hslot
      obtain ⟨hbuf, hset⟩ := hslot
      have hne : ascii "key_id" ≠ ascii "key" := by decide
      simp only [jsonFieldEquals, hi, decide_true, decide_false, if_true, hset, hne, hbuf,
        Bool.false_eq_true, if_false, jsonParseKeyIdField, hs, if_neg (show ¬ buffer.length = 0 by omega),
        jsonParseStringToken_complete hbody w buffer hlt, Option.bind_eq_bind, Option.bind_some]
      exact ⟨_, rfl, rfl, rfl, rfl⟩
    · rw [if_neg hi] at habs
      simp at habs

/-- What one round of the member loop does with the text `u`. -/
inductive MemberRound (fuel : ℕ) (u rest : Bytes) (s : Fields) :
    Option (SaltStatus × Fields) → Prop where
  | unnamed {rc : SaltStatus} {field : Bytes} {t : Fields}
      (hname : jsonParseFieldName s fieldBuffer = some (rc, field, t)) (hrc : rc ≠ .ok)
      (hsize : SameSizes s t) (hrep : Reported s.error t.error) :
      MemberRound fuel u rest s (some (.errInput, t))
  | refused {a raw b v field : Bytes} {rc : SaltStatus} {t s₁ : Fields}
      (hu : u = a ++ 34 :: (raw ++ 34 :: (b ++ 58 :: v))) (ha : Blank a)
      (hraw : StringBody raw (cstr field)) (hshort : (cstr field).length < 32) (hb : Blank b)
      (hval : jsonParseKnownField field s₁ = some (rc, t)) (herr : s₁.error = s.error)
      (hrc : rc ≠ .ok) (hsize : SameSizes s t) (hrep : Reported s.error t.error) :
      MemberRound fuel u rest s (some (.errInput, t))
  | invalid {cursor : Bytes} {s₂ : Fields} (hsize : SameSizes s s₂) (herr : s₂.error = s.error) :
      MemberRound fuel u rest s
        (some (.errInput, { s₂ with cursor := cursor, error := jsonInvalidKeyObject s₂.error }))
  | more {v u' : Bytes} {m : Bytes × Bytes} {s₂ : Fields} (hu : u = v ++ 44 :: u')
      (hmember : Member v m) (habs : (slots s).absorb m = some (slots s₂)) (hsize : SameSizes s s₂)
      (herr : s₂.error = s.error) :
      MemberRound fuel u rest s (jsonParseMembers fuel { s₂ with cursor := u' ++ 0 :: rest })
  | last {v u' : Bytes} {m : Bytes × Bytes} {s₂ : Fields} (hu : u = v ++ 125 :: u')
      (hmember : Member v m) (habs : (slots s).absorb m = some (slots s₂)) (hsize : SameSizes s s₂)
      (herr : s₂.error = s.error) :
      MemberRound fuel u rest s (some (.ok, { s₂ with cursor := u' ++ 0 :: rest }))

theorem jsonParseMembers_round (fuel : ℕ) {s : Fields} {u rest : Bytes}
    (hs : s.cursor = u ++ 0 :: rest) (hu : 0 ∉ u) :
    MemberRound fuel u rest s (jsonParseMembers (fuel + 1) s) := by
  obtain ⟨rc, field, s₁, hname, hsize₁, hrep₁, hread⟩ := jsonParseFieldName_total hs hu
  simp only [jsonParseMembers, hname, Option.bind_eq_bind, Option.bind_some]
  by_cases hrc : rc = .ok
  swap
  · rw [if_pos hrc]
    exact .unnamed hname hrc hsize₁ (hrep₁ hrc)
  obtain ⟨a, raw, name, b, c, u₁, rfl, ha, hraw, hshort, hb, hc, rfl, rfl⟩ := hread hrc
  simp only [List.mem_append, List.mem_cons, not_or] at hu
  have hu₁ : 0 ∉ u₁ := hu.2.2.2.2.2.2.2
  obtain ⟨rc₂, s₂, hval, hsize₂, hrep₂, hread₂⟩ :=
    jsonParseKnownField_total (s := { s with cursor := u₁ ++ 0 :: rest }) rfl hu₁ field
  have hsize := hsize₁.trans hsize₂
  simp only [hrc, ne_eq, not_true_eq_false, if_false, hval, Option.bind_some]
  by_cases hrc₂ : rc₂ = .ok
  swap
  · rw [if_pos hrc₂]
    exact .refused rfl ha hraw hshort hb hval rfl hrc₂ hsize (hrep₂ hrc₂)
  obtain ⟨raw', value, u₂, rfl, hraw', habs, hcur, herr⟩ := hread₂ hrc₂
  obtain ⟨d, u₃, rfl, hd, hskip⟩ := jsonSkipWs_total u₂ rest
  have hmember := Member.mk ha hraw hb hc hraw' hd
  simp only [hrc₂, not_true_eq_false, if_false, hcur, hskip, Option.bind_some]
  cases u₃ with
  | nil => exact .invalid hsize herr
  | cons x u₃ =>
    simp only [List.cons_append]
    split_ifs with hcomma hbrace
    · subst hcomma
      exact .more (by simp [List.append_assoc]) hmember habs hsize herr
    · subst hbrace
      exact .last (by simp [List.append_assoc]) hmember habs hsize herr
    · exact .invalid hsize herr

/-- What an accepting run of the member loop has read, up to the closing brace. -/
structure MembersRead (u rest : Bytes) (s t : Fields) : Prop where
  error : t.error = s.error
  read : ∃ v b ms, u = v ++ 125 :: b ∧ Members v ms ∧
    ms.foldlM Slots.absorb (slots s) = some (slots t) ∧ t.cursor = b ++ 0 :: rest

theorem jsonParseMembers_total (fuel : ℕ) {s : Fields} {u rest : Bytes}
    (hs : s.cursor = u ++ 0 :: rest) (hu : 0 ∉ u) (hfuel : u.length < fuel) :
    ∃ rc t, jsonParseMembers fuel s = some (rc, t) ∧ SameSizes s t ∧
      (rc ≠ .ok → Reported s.error t.error) ∧
      (rc = .ok → MembersRead u rest s t) := by
  induction fuel generalizing s u with
  | zero => omega
  | succ fuel ih =>
    have hround := jsonParseMembers_round fuel hs hu
    generalize jsonParseMembers (fuel + 1) s = r at hround ⊢
    cases hround with
    | unnamed _ _ hsize hrep => exact ⟨_, _, rfl, hsize, fun _ => hrep, by simp⟩
    | refused _ _ _ _ _ _ _ _ hsize hrep => exact ⟨_, _, rfl, hsize, fun _ => hrep, by simp⟩
    | invalid hsize herr =>
      exact ⟨_, _, rfl, hsize.trans (.refused ..),
        fun _ => herr ▸ setErrorBuffer_reported _ (by decide), by simp⟩
    | @more v u' m s₂ hsplit hmember habs hsize herr =>
      subst hsplit
      have hu' : 0 ∉ u' := fun h => hu (by simp [h])
      obtain ⟨rc, t, ht, hsize', hrep, hok⟩ := ih (s := { s₂ with cursor := u' ++ 0 :: rest }) rfl hu'
        (by simp only [List.length_append, List.length_cons] at hfuel; omega)
      refine ⟨rc, t, ht, hsize.trans ((SameSizes.moved ..).trans hsize'), fun h => herr ▸ hrep h,
        fun h => ?_⟩
      obtain ⟨herr', v', b, ms, rfl, hms, hfold, hcur⟩ := hok h
      refine ⟨herr'.trans herr, v ++ 44 :: v', b, m :: ms, by simp, .more hmember hms, ?_, hcur⟩
      rw [List.foldlM_cons]
      exact Option.bind_eq_some_iff.2 ⟨_, habs, hfold⟩
    | @last v u' m s₂ hsplit hmember habs hsize herr =>
      refine ⟨_, _, rfl, hsize.trans (.moved ..), by simp, fun _ => ?_⟩
      refine ⟨herr, v, u', [m], hsplit, .last hmember, ?_, rfl⟩
      rw [List.foldlM_cons]
      exact Option.bind_eq_some_iff.2 ⟨_, habs, rfl⟩

theorem absorb_name_short {s t : Slots} {m : Bytes × Bytes} (h : s.absorb m = some t) :
    m.1.length < 32 := by
  unfold Slots.absorb at h
  split_ifs at h with hk hi
  · rw [hk]
    decide
  · rw [hi]
    decide

theorem jsonParseMember_complete {v : Bytes} {m : Bytes × Bytes} (hm : Member v m) {s : Fields}
    {x : UInt8} {w : Bytes} (hx : cliIsAsciiWs x = false) (hs : s.cursor = v ++ x :: w)
    {filled : Slots} (habs : (slots s).absorb m = some filled) :
    ∃ field s₁ t, jsonParseFieldName s fieldBuffer = some (.ok, field, s₁) ∧
      jsonParseKnownField field s₁ = some (.ok, t) ∧
      jsonSkipWs t.cursor = some (x :: w) ∧ slots t = filled ∧ t.error = s.error := by
  have hlen := absorb_name_short habs
  obtain @⟨a, b, c, d, raw, raw', name, value, ha, hname, hb, hc, hvalue, hd⟩ := hm
  have hq : cliIsAsciiWs 34 = false := by decide
  have hparse := jsonParseFieldName_complete (s := s) (w := raw' ++ 34 :: (d ++ x :: w)) ha hname
    hb hc hq hlen (by rw [hs]; simp [List.append_assoc])
  rw [← cstr_written hname.text_noNul fieldBuffer] at habs
  obtain ⟨t, ht, hslots, hcur, herr⟩ := jsonParseKnownField_complete
    (s := { s with cursor := 34 :: (raw' ++ 34 :: (d ++ x :: w)) }) hvalue rfl habs
  exact ⟨_, _, t, hparse, ht, by rw [hcur, jsonSkipWs_blank hd hx], hslots, herr⟩

theorem jsonParseMembers_complete {v : Bytes} {ms : List (Bytes × Bytes)} (hms : Members v ms)
    {s : Fields} {w : Bytes} {fuel : ℕ} (hs : s.cursor = v ++ 125 :: w) (hfuel : v.length < fuel)
    {filled : Slots} (hfold : ms.foldlM Slots.absorb (slots s) = some filled) :
    ∃ t, jsonParseMembers fuel s = some (.ok, t) ∧ slots t = filled ∧ t.cursor = w ∧
      t.error = s.error := by
  induction hms generalizing s fuel with
  | last hm =>
    obtain ⟨fuel, rfl⟩ : ∃ n, fuel = n + 1 := ⟨fuel - 1, by omega⟩
    rw [List.foldlM_cons] at hfold
    obtain ⟨filled', habs, hfold⟩ := Option.bind_eq_some_iff.1 hfold
    obtain rfl : filled' = filled := by simpa using hfold
    obtain ⟨field, s₁, t, hname, hval, hskip, hslots, herr⟩ :=
      jsonParseMember_complete hm (by decide) hs habs
    refine ⟨{ t with cursor := w }, ?_, hslots, rfl, herr⟩
    simp [jsonParseMembers, hname, hval, hskip]
  | @more v v' m ms hm _ ih =>
    obtain ⟨fuel, rfl⟩ : ∃ n, fuel = n + 1 := ⟨fuel - 1, by omega⟩
    rw [List.foldlM_cons] at hfold
    obtain ⟨filled', habs, hfold⟩ := Option.bind_eq_some_iff.1 hfold
    obtain ⟨field, s₁, t, hname, hval, hskip, hslots, herr⟩ :=
      jsonParseMember_complete hm (x := 44) (w := v' ++ 125 :: w) (by decide)
        (by rw [hs]; simp) habs
    have hfuel' : v'.length < fuel := by
      simp only [List.length_append, List.length_cons] at hfuel
      omega
    obtain ⟨t', ht', hslots', hcur', herr'⟩ := ih (s := { t with cursor := v' ++ 125 :: w })
      rfl hfuel' (by rw [← hfold, ← hslots]; rfl)
    refine ⟨t', ?_, hslots', hcur', herr'.trans herr⟩
    simp [jsonParseMembers, hname, hval, hskip, ht']

structure Parsed (keyB64 : Bytes) (keyId error : Option Bytes) (key : Bytes) (id : Option Bytes)
    (out : KeyOut) : Prop where
  keyB64 : ∃ tail, out.keyB64 = some (trim key ++ 0 :: tail) ∧
    (trim key ++ 0 :: tail).length = keyB64.length
  keyId_cstr : out.keyId.map cstr = keyId.map fun _ => trim (id.getD [])
  keyId_length : out.keyId.map List.length = keyId.map List.length
  hasKeyId : out.hasKeyId = some (decide (trim (id.getD []) ≠ []))
  error : out.error = error

structure SameOutSizes (keyB64 : Bytes) (keyId error : Option Bytes) (out : KeyOut) : Prop where
  keyB64 : out.keyB64.map List.length = some keyB64.length
  keyId : out.keyId.map List.length = keyId.map List.length
  error : out.error.map List.length = error.map List.length

theorem Parsed.sameOutSizes {keyB64 : Bytes} {keyId error : Option Bytes} {key : Bytes}
    {id : Option Bytes} {out : KeyOut} (h : Parsed keyB64 keyId error key id out) :
    SameOutSizes keyB64 keyId error out := by
  obtain ⟨tail, hkey, hlen⟩ := h.keyB64
  exact ⟨by rw [hkey, Option.map_some, hlen], h.keyId_length, by rw [h.error]⟩

theorem head_zero_iff {s : Bytes} (hs : 0 ∉ s) (tail : Bytes) :
    ∃ c, (s ++ 0 :: tail)[0]? = some c ∧ (c = 0 ↔ s = []) := by
  cases s with
  | nil => exact ⟨0, rfl, by simp⟩
  | cons c s => exact ⟨c, rfl, by simpa using fun h : c = 0 => hs (by simp [h])⟩

theorem clearKeyId_length (keyId : Option Bytes) :
    (clearKeyId keyId).map List.length = keyId.map List.length := by
  cases keyId <;> simp [clearKeyId]

theorem clearKeyId_cstr (keyId : Option Bytes) :
    (clearKeyId keyId).map cstr = keyId.map fun _ => [] := by
  rcases keyId with _ | _ | ⟨c, b⟩ <;> simp [clearKeyId, cstr]

theorem trim_written {text buffer : Bytes} (ht : 0 ∉ text) (h : text.length < buffer.length) :
    ∃ tail, saltCliTrimWhitespaceInplace (written text buffer) (written text buffer).length =
        some (trim text ++ 0 :: tail) ∧ (trim text ++ 0 :: tail).length = buffer.length := by
  obtain ⟨tail, htail, hlen⟩ := trim_buffer ht (buffer.drop (text.length + 1))
  exact ⟨tail, htail, hlen.trans (written_length h)⟩

theorem jsonFinishKeyFields_blank {s : Fields} {keyB64 key : Bytes} {keyId : Option Bytes}
    {id : Option Bytes} (h : Filled keyB64 (clearKeyId keyId) key id (slots s)) (hkey : 0 ∉ key)
    (hblank : Blank key) : ∃ out, jsonFinishKeyFields s false = some (.errInput, out) ∧
      SameOutSizes keyB64 keyId s.error out ∧ Reported s.error out.error := by
  obtain ⟨hfits, hk, hi⟩ := h
  simp only [slots, Slot.mk.injEq, Option.some.injEq] at hk hi
  obtain ⟨tail, htail, hlen⟩ := trim_written hkey hfits
  obtain ⟨c, hc, hc0⟩ := head_zero_iff (trim_noNul hkey) tail
  have hzero : c = 0 := hc0.2 ((trim_eq_nil_iff key).2 hblank)
  unfold jsonFinishKeyFields
  simp only [hk.2, hk.1, htail, hc, hzero, Bool.not_true, Bool.false_eq_true, if_false, if_true,
    Option.bind_eq_bind, Option.bind_some]
  refine ⟨_, rfl, ⟨by simp only [Option.map_some, hlen], ?_, setErrorBuffer_length _ _⟩,
    setErrorBuffer_reported _ (by decide)⟩
  rcases hi with ⟨-, hi, -⟩ | ⟨text, buffer, -, hbuf, hlt, hi, -⟩
  · rw [hi, clearKeyId_length]
  · rw [hi, ← clearKeyId_length keyId, hbuf, Option.map_some, Option.map_some, written_length hlt]

theorem jsonFinishKeyFields_ok {s : Fields} {keyB64 key : Bytes} {keyId : Option Bytes}
    {id : Option Bytes} (h : Filled keyB64 (clearKeyId keyId) key id (slots s)) (hkey : 0 ∉ key)
    (hid : ∀ text ∈ id, 0 ∉ text) (hblank : ¬ Blank key) :
    ∃ out, jsonFinishKeyFields s false = some (.ok, out) ∧
      Parsed keyB64 keyId s.error key id out := by
  obtain ⟨hfits, hk, hi⟩ := h
  simp only [slots, Slot.mk.injEq, Option.some.injEq] at hk hi
  obtain ⟨tail, htail, hlen⟩ := trim_written hkey hfits
  obtain ⟨c, hc, hc0⟩ := head_zero_iff (trim_noNul hkey) tail
  have hne : c ≠ 0 := fun h => hblank ((trim_eq_nil_iff key).1 (hc0.1 h))
  unfold jsonFinishKeyFields
  simp only [hk.2, hk.1, htail, hc, hne, Bool.not_true, Bool.false_eq_true, if_false,
    Option.bind_eq_bind, Option.bind_some]
  rcases hi with ⟨rfl, hi, hset⟩ | ⟨text, buffer, rfl, hbuf, hlt, hi, hset⟩
  · refine ⟨⟨some (trim key ++ 0 :: tail), s.keyId, some false, s.error⟩, ?_,
      ⟨tail, rfl, hlen⟩, ?_, ?_, by simp [trim, strip_nil], rfl⟩
    · rw [hset]
      cases s.keyId <;> rfl
    · rw [hi, clearKeyId_cstr]
      simp [trim, strip_nil]
    · rw [hi, clearKeyId_length]
  · obtain ⟨tail', htail', hlen'⟩ := trim_written (hid text rfl) hlt
    obtain ⟨d, hd, hd0⟩ := head_zero_iff (trim_noNul (hid text rfl)) tail'
    simp only [hi, hset, htail', hd, Option.bind_some]
    refine ⟨_, rfl, ⟨tail, rfl, hlen⟩, ?_, ?_, ?_, rfl⟩
    · have hmap := clearKeyId_length keyId
      rw [hbuf] at hmap
      cases keyId with
      | none => simp at hmap
      | some _ => simp [cstr_append_zero (trim_noNul (hid text rfl))]
    · rw [Option.map_some, hlen', ← clearKeyId_length, hbuf, Option.map_some]
    · simp [hd0]

theorem jsonFinishKeyFields_total {v keyB64 : Bytes} {keyId error : Option Bytes}
    {ms : List (Bytes × Bytes)} {s : Fields} (hms : Members v ms)
    (hfold : ms.foldlM Slots.absorb ⟨⟨some keyB64, false⟩, ⟨clearKeyId keyId, false⟩⟩ =
      some (slots s)) (herr : s.error = error)
    (hsizes : SameOutSizes keyB64 keyId error ⟨some s.keyB64, s.keyId, some false, s.error⟩) :
    ∃ rc out, jsonFinishKeyFields s false = some (rc, out) ∧
      SameOutSizes keyB64 keyId error out ∧ (rc = .ok ∨ rc = .errInput) ∧
      (rc ≠ .ok → Reported error out.error) ∧
      (rc = .ok → ∃ key id, KeyMembers ms key id ∧ ¬ Blank key ∧
        Filled keyB64 (clearKeyId keyId) key id (slots s)) := by
  cases hset : s.keySet with
  | false =>
    refine ⟨_, _, by rw [jsonFinishKeyFields, hset]; rfl, ?_, by simp, fun _ => ?_, by simp⟩
    · exact ⟨hsizes.keyB64, hsizes.keyId, (setErrorBuffer_length _ _).trans hsizes.error⟩
    · exact herr ▸ setErrorBuffer_reported _ (by decide)
  | true =>
    obtain ⟨key, id, hkm, hfill⟩ := absorb_all_iff.1 ⟨hfold, hset⟩
    obtain ⟨hk0, hi0⟩ := hkm.noNul hms
    by_cases hblank : Blank key
    · obtain ⟨out, hfin, hsz, hrep⟩ := jsonFinishKeyFields_blank hfill hk0 hblank
      rw [herr] at hsz hrep
      exact ⟨_, out, hfin, hsz, by simp, fun _ => hrep, by simp⟩
    · obtain ⟨out, hfin, hparsed⟩ := jsonFinishKeyFields_ok hfill hk0 hi0 hblank
      have hsz := hparsed.sameOutSizes
      exact ⟨_, out, hfin, by rwa [herr] at hsz, .inl rfl, by simp, fun _ => ⟨key, id, hkm, hblank, hfill⟩⟩

theorem accepts_of_filled {json keyB64 key : Bytes} {keyId id : Option Bytes}
    {ms : List (Bytes × Bytes)} {t : Slots} (hobj : KeyObject json ms) (hkm : KeyMembers ms key id)
    (hblank : ¬ Blank key) (h : Filled keyB64 (clearKeyId keyId) key id t) :
    Accepts json keyB64.length (keyId.map List.length) key id := by
  refine ⟨⟨ms, hobj, hkm⟩, ?_, hblank, fun text htext => ?_⟩
  · have := h.key_fits
    omega
  · rcases h.keyId with ⟨rfl, -⟩ | ⟨text', buffer, rfl, hbuf, hlt, -⟩
    · simp at htext
    · obtain rfl : text' = text := by simpa using htext
      exact ⟨buffer.length, by rw [← clearKeyId_length, hbuf]; rfl, hlt⟩

def objectTexts : List Bytes :=
  [ascii "invalid JSON key object", ascii "JSON key object must include string field 'key'"]

/-- What the strict parser does with the text `json`. -/
inductive ObjectRun (json rest keyB64 : Bytes) (keyId error : Option Bytes) :
    Option (SaltStatus × KeyOut) → Prop where
  | invalid {text : Bytes} (htext : text ∈ objectTexts) :
      ObjectRun json rest keyB64 keyId error
        (some (.errInput, ⟨some keyB64, clearKeyId keyId, some false, cliSetError error text⟩))
  | refused {a b u : Bytes} {rc : SaltStatus} {t : Fields} (hjson : json = a ++ 123 :: (b ++ u))
      (ha : Blank a) (hb : Blank b) (hu : 0 ∉ u)
      (hmembers : jsonParseMembers (u ++ 0 :: rest).length
        ⟨u ++ 0 :: rest, keyB64, clearKeyId keyId, false, false, error⟩ = some (rc, t))
      (hrc : rc ≠ .ok) (hrep : Reported error t.error)
      (hsizes : SameOutSizes keyB64 keyId error ⟨some t.keyB64, t.keyId, some false, t.error⟩) :
      ObjectRun json rest keyB64 keyId error
        (some (.errInput, ⟨some t.keyB64, t.keyId, some false, t.error⟩))
  | trailing {t : Fields} (herr : t.error = error)
      (hsizes : SameOutSizes keyB64 keyId error ⟨some t.keyB64, t.keyId, some false, t.error⟩) :
      ObjectRun json rest keyB64 keyId error
        (some (.errInput, ⟨some t.keyB64, t.keyId, some false, jsonInvalidKeyObject t.error⟩))
  | finished {a v d : Bytes} {ms : List (Bytes × Bytes)} {t : Fields}
      (hjson : json = a ++ 123 :: (v ++ 125 :: d)) (ha : Blank a) (hd : Blank d)
      (hms : Members v ms)
      (hfold : ms.foldlM Slots.absorb ⟨⟨some keyB64, false⟩, ⟨clearKeyId keyId, false⟩⟩ =
        some (slots t)) (herr : t.error = error)
      (hsizes : SameOutSizes keyB64 keyId error ⟨some t.keyB64, t.keyId, some false, t.error⟩) :
      ObjectRun json rest keyB64 keyId error (jsonFinishKeyFields t false)

theorem saltCliParseKeyJsonObjectStrict_run {json : Bytes} (hjson : 0 ∉ json) (rest : Bytes)
    {keyB64 : Bytes} (hsize : keyB64 ≠ []) (keyId error : Option Bytes) (flag : Bool) :
    ObjectRun json rest keyB64 keyId error (saltCliParseKeyJsonObjectStrict
      (some (json ++ 0 :: rest)) ⟨some keyB64, keyId, some flag, error⟩) := by
  have hlen : keyB64.length ≠ 0 := fun h => hsize (List.length_eq_zero_iff.1 h)
  obtain ⟨a, u, rfl, ha, hskip⟩ := jsonSkipWs_total json rest
  simp only [saltCliParseKeyJsonObjectStrict, if_neg hlen, hskip, Option.bind_eq_bind,
    Option.bind_some]
  cases u with
  | nil => exact .invalid List.mem_cons_self
  | cons c u =>
    simp only [List.cons_append]
    split_ifs with hc
    · exact .invalid List.mem_cons_self
    obtain rfl : c = 123 := not_not.1 hc
    obtain ⟨b, u, rfl, hb, hskip⟩ := jsonSkipWs_total u rest
    have hu : 0 ∉ u := fun h => hjson (by simp [h])
    simp only [hskip, Option.bind_some]
    obtain ⟨c, w, hcw⟩ : ∃ c w, u ++ 0 :: rest = c :: w := List.exists_cons_of_ne_nil (by simp)
    simp only [hcw]
    split_ifs with hclose
    · exact .invalid (List.mem_cons_of_mem _ List.mem_cons_self)
    rw [← hcw]
    obtain ⟨rc, t, ht, hsizes, hrep, hread⟩ := jsonParseMembers_total (u ++ 0 :: rest).length
      (s := ⟨u ++ 0 :: rest, keyB64, clearKeyId keyId, false, false, error⟩) rfl hu (by simp)
    have hout : SameOutSizes keyB64 keyId error ⟨some t.keyB64, t.keyId, some false, t.error⟩ :=
      ⟨congrArg some hsizes.keyB64, hsizes.keyId.trans (clearKeyId_length _), hsizes.error⟩
    simp only [ht, Option.bind_some]
    by_cases hrc : rc = .ok
    swap
    · rw [if_pos hrc]
      exact .refused rfl ha hb hu ht hrc (hrep hrc) hout
    obtain ⟨herr, v, e, ms, rfl, hms, hfold, hcur⟩ := hread hrc
    obtain ⟨d, x, rfl, hd, hskip⟩ := jsonSkipWs_total e rest
    simp only [hrc, ne_eq, not_true_eq_false, if_false, hcur, hskip, Option.bind_some]
    cases x with
    | nil => exact .finished (by simp) ha hd (hms.blank_append hb) hfold herr hout
    | cons y x =>
      have hy : y ≠ 0 := fun h => hu (by simp [h])
      simp only [List.cons_append, if_pos hy]
      exact .trailing herr hout

/-- Every run over a terminated string returns; an accepted string is in the grammar. -/
theorem saltCliParseKeyJsonObjectStrict_sound {json : Bytes} (hjson : 0 ∉ json) (rest : Bytes)
    {keyB64 : Bytes} (hsize : keyB64 ≠ []) (keyId error : Option Bytes) (flag : Bool) :
    ∃ rc out, saltCliParseKeyJsonObjectStrict (some (json ++ 0 :: rest))
        ⟨some keyB64, keyId, some flag, error⟩ = some (rc, out) ∧
      SameOutSizes keyB64 keyId error out ∧ (rc = .ok ∨ rc = .errInput) ∧
      (rc ≠ .ok → Reported error out.error) ∧
      (rc = .ok → ∃ key id, Accepts json keyB64.length (keyId.map List.length) key id) := by
  have hrun := saltCliParseKeyJsonObjectStrict_run hjson rest hsize keyId error flag
  generalize saltCliParseKeyJsonObjectStrict _ _ = r at hrun ⊢
  cases hrun with
  | invalid htext =>
    exact ⟨_, _, rfl, ⟨rfl, clearKeyId_length _, setErrorBuffer_length _ _⟩, .inr rfl,
      fun _ => setErrorBuffer_reported _ ((by decide : ∀ text ∈ objectTexts, cstr text ≠ []) _ htext),
      by simp⟩
  | refused _ _ _ _ _ _ hrep hsizes => exact ⟨_, _, rfl, hsizes, .inr rfl, fun _ => hrep, by simp⟩
  | trailing herr hsizes =>
    exact ⟨_, _, rfl, ⟨hsizes.keyB64, hsizes.keyId, (setErrorBuffer_length _ _).trans hsizes.error⟩,
      .inr rfl, fun _ => herr ▸ setErrorBuffer_reported _ (by decide), by simp⟩
  | @finished a v d ms t hsplit ha hd hms hfold herr hsizes =>
    obtain ⟨rc, out, hfin, hsz, hor, hrep, hok⟩ := jsonFinishKeyFields_total hms hfold herr hsizes
    refine ⟨rc, out, hfin, hsz, hor, hrep, fun hrc => ?_⟩
    obtain ⟨key, id, hkm, hblank, hfill⟩ := hok hrc
    exact ⟨key, id, accepts_of_filled ⟨a, v, d, hsplit, ha, hms, hd⟩ hkm hblank hfill⟩

theorem filled_of_accepts {json keyB64 key : Bytes} {keyId id : Option Bytes}
    {ms : List (Bytes × Bytes)} (h : Accepts json keyB64.length (keyId.map List.length) key id)
    (hkm : KeyMembers ms key id) (hsize : keyB64 ≠ []) :
    ∃ t, ms.foldlM Slots.absorb ⟨⟨some keyB64, false⟩, ⟨clearKeyId keyId, false⟩⟩ = some t ∧
      Filled keyB64 (clearKeyId keyId) key id t := by
  have hpos : 0 < keyB64.length := List.length_pos_iff.2 hsize
  have hfits : key.length < keyB64.length := by
    have := h.key_fits
    omega
  obtain ⟨t, hfill⟩ : ∃ t, Filled keyB64 (clearKeyId keyId) key id t := by
    cases id with
    | none => exact ⟨⟨_, _⟩, hfits, rfl, .inl ⟨rfl, rfl⟩⟩
    | some text =>
      obtain ⟨size, hsz, hlt⟩ := h.keyId_fits text rfl
      rw [← clearKeyId_length, Option.mem_def, Option.map_eq_some_iff] at hsz
      obtain ⟨buffer, hbuf, rfl⟩ := hsz
      exact ⟨⟨_, _⟩, hfits, rfl, .inr ⟨text, buffer, rfl, hbuf, hlt, rfl⟩⟩
  exact ⟨t, (absorb_all_iff.2 ⟨key, id, hkm, hfill⟩).1, hfill⟩

theorem saltCliParseKeyJsonObjectStrict_complete {json : Bytes} (rest : Bytes) {keyB64 : Bytes}
    (hsize : keyB64 ≠ []) {keyId : Option Bytes} (error : Option Bytes) (flag : Bool)
    {key : Bytes} {id : Option Bytes}
    (h : Accepts json keyB64.length (keyId.map List.length) key id) :
    ∃ out, saltCliParseKeyJsonObjectStrict (some (json ++ 0 :: rest))
        ⟨some keyB64, keyId, some flag, error⟩ = some (.ok, out) ∧
      Parsed keyB64 keyId error key id out := by
  have hlen : keyB64.length ≠ 0 := fun h => hsize (List.length_eq_zero_iff.1 h)
  obtain ⟨ms, ⟨a, s, b, hjson, ha, hms, hb⟩, hkm⟩ := h.members
  obtain ⟨t, hfold, hfill⟩ := filled_of_accepts h hkm hsize
  obtain ⟨hk0, hi0⟩ := hkm.noNul hms
  obtain ⟨a', w, hs, ha', hms'⟩ := hms.exists_quote
  have hopen : jsonSkipWs (json ++ 0 :: rest) =
      some (123 :: (a' ++ 34 :: (w ++ 125 :: (b ++ 0 :: rest)))) := by
    have hb123 : cliIsAsciiWs 123 = false := by decide
    rw [← jsonSkipWs_blank ha hb123, hjson, hs]
    simp
  have hquote : jsonSkipWs (a' ++ 34 :: (w ++ 125 :: (b ++ 0 :: rest))) =
      some (34 :: (w ++ 125 :: (b ++ 0 :: rest))) := jsonSkipWs_blank ha' (by decide) _
  have hfuel : (34 :: w).length < (34 :: (w ++ 125 :: (b ++ 0 :: rest))).length := by
    simp only [List.length_append, List.length_cons]
    omega
  obtain ⟨s', hs', hslots, hcur, herr⟩ := jsonParseMembers_complete hms'
    (s := ⟨34 :: (w ++ 125 :: (b ++ 0 :: rest)), keyB64, clearKeyId keyId, false, false, error⟩)
    rfl hfuel hfold
  rw [← hslots] at hfill
  obtain ⟨out, hfin, hparsed⟩ := jsonFinishKeyFields_ok hfill hk0 hi0 h.key_not_blank
  refine ⟨out, ?_, by rwa [herr] at hparsed⟩
  simp only [saltCliParseKeyJsonObjectStrict, if_neg hlen, hopen, hquote, Option.bind_eq_bind,
    Option.bind_some, ne_eq, not_true_eq_false, if_false,
    if_neg (show ¬ (34 : UInt8) = 125 by decide), hs', hcur, jsonSkipWs_blank hb ws_zero rest, hfin]

theorem saltCliParseKeyJsonObjectStrict_spec {json : Bytes} (hjson : 0 ∉ json) (rest : Bytes)
    {keyB64 : Bytes} (hsize : keyB64 ≠ []) (keyId error : Option Bytes) (flag : Bool) :
    ∃ rc out, saltCliParseKeyJsonObjectStrict (some (json ++ 0 :: rest))
        ⟨some keyB64, keyId, some flag, error⟩ = some (rc, out) ∧
      SameOutSizes keyB64 keyId error out ∧ (rc = .ok ∨ rc = .errInput) ∧
      (rc ≠ .ok → Reported error out.error) ∧
      (rc = .ok → ∃ key id, Accepts json keyB64.length (keyId.map List.length) key id) ∧
      ∀ key id, Accepts json keyB64.length (keyId.map List.length) key id →
        rc = .ok ∧ Parsed keyB64 keyId error key id out := by
  obtain ⟨rc, out, hrun, hsizes, hor, hrep, hsound⟩ :=
    saltCliParseKeyJsonObjectStrict_sound hjson rest hsize keyId error flag
  refine ⟨rc, out, hrun, hsizes, hor, hrep, hsound, fun key id h => ?_⟩
  obtain ⟨out', hrun', hparsed⟩ := saltCliParseKeyJsonObjectStrict_complete rest hsize error flag h
  rw [hrun, Option.some.injEq, Prod.mk.injEq] at hrun'
  exact ⟨hrun'.1, hrun'.2 ▸ hparsed⟩

theorem accepts_of_ok {json : Bytes} (hjson : 0 ∉ json) (rest : Bytes) {keyB64 : Bytes}
    (hsize : keyB64 ≠ []) {keyId error : Option Bytes} {flag : Bool} {out : KeyOut}
    (hrun : saltCliParseKeyJsonObjectStrict (some (json ++ 0 :: rest))
      ⟨some keyB64, keyId, some flag, error⟩ = some (.ok, out)) :
    ∃ key id, Accepts json keyB64.length (keyId.map List.length) key id ∧
      Parsed keyB64 keyId error key id out := by
  obtain ⟨rc, out', hrun', -, -, -, hsound, hcomplete⟩ :=
    saltCliParseKeyJsonObjectStrict_spec hjson rest hsize keyId error flag
  rw [hrun, Option.some.injEq, Prod.mk.injEq] at hrun'
  obtain ⟨rfl, rfl⟩ := hrun'
  obtain ⟨key, id, h⟩ := hsound rfl
  exact ⟨key, id, h, (hcomplete key id h).2⟩

/-- The strict parser accepts exactly the key objects that fit its buffers. -/
theorem saltCliParseKeyJsonObjectStrict_correct (json : CString) (keyB64 : Bytes)
    (hsize : 1 ≤ keyB64.length) (keyId error : Option Bytes) (flag : Bool) :
    ∃ rc out, saltCliParseKeyJsonObjectStrict (some json.memory)
        ⟨some keyB64, keyId, some flag, error⟩ = some (rc, out) ∧
      (rc = .ok ↔
        ∃ key id, Accepts json.bytes keyB64.length (keyId.map List.length) key id) ∧
      (rc ≠ .ok → rc = .errInput) ∧
      ∀ key id, Accepts json.bytes keyB64.length (keyId.map List.length) key id →
        Parsed keyB64 keyId error key id out := by
  obtain ⟨rc, out, hrun, -, hor, -, hsound, hcomplete⟩ :=
    saltCliParseKeyJsonObjectStrict_spec json.noNul [] (List.length_pos_iff.1 hsize) keyId error flag
  refine ⟨rc, out, hrun, ⟨hsound, ?_⟩, fun h => hor.resolve_left h,
    fun key id h => (hcomplete key id h).2⟩
  rintro ⟨key, id, h⟩
  exact (hcomplete key id h).1

theorem accepts_letter {b : Bytes} (hb : Blank b) :
    Accepts (ascii "\x7b\"key\":\"A\"\x7d" ++ b) 2 none (ascii "A") none := by
  have hplain (c : UInt8) (h : 0x20 ≤ c ∧ c ≠ 34 ∧ c ≠ 92) : StringBody [c] [c] :=
    .plain h.1 h.2.1 h.2.2 .nil
  have hkey : StringBody (ascii "key") (ascii "key") :=
    .plain (by decide) (by decide) (by decide)
      (.plain (by decide) (by decide) (by decide) (hplain 121 (by decide)))
  have hmember : Member ([] ++ 34 :: (ascii "key" ++ 34 :: ([] ++ 58 :: ([] ++ 34 ::
      (ascii "A" ++ 34 :: []))))) (ascii "key", ascii "A") :=
    .mk (by decide) hkey (by decide) (by decide) (hplain 65 (by decide)) (by decide)
  exact ⟨⟨[(ascii "key", ascii "A")], ⟨[], _, b, rfl, by decide, .last hmember, hb⟩,
    by decide, by decide, by decide⟩, by decide, by decide, by simp⟩

theorem saltCliParseKeyJsonObjectStrict_correct_smallest :
    ∃ out, saltCliParseKeyJsonObjectStrict (some (ascii "\x7b\"key\":\"A\"\x7d" ++ [0]))
        ⟨some [7, 7], none, some true, none⟩ = some (.ok, out) ∧
      Parsed [7, 7] none none (ascii "A") none out := by
  have hacc : Accepts (ascii "\x7b\"key\":\"A\"\x7d") 2 none (ascii "A") none :=
    accepts_letter (b := []) (by decide)
  obtain ⟨rc, out, hrun, hiff, -, hparsed⟩ := saltCliParseKeyJsonObjectStrict_correct
    (CString.ofAscii "\x7b\"key\":\"A\"\x7d") [7, 7] (by decide) none none true
  exact ⟨out, by rw [← hiff.2 ⟨_, _, hacc⟩]; exact hrun, hparsed _ _ hacc⟩

end Salt.KeyParsingCorrect
