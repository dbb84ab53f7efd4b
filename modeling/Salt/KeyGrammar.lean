import Salt.Trimming

set_option autoImplicit false

/-!
# The grammar of JSON key objects

The language the strict key parser is meant for, written as derivations over
byte strings. The second half says which member lists fill the two
destination buffers, without reference to the order of the members.
-/
namespace Salt.KeyGrammar
open ByteStrings KeyParsing Trimming

def Blank (s : Bytes) : Prop := ∀ b ∈ s, cliIsAsciiWs b = true

instance (s : Bytes) : Decidable (Blank s) := inferInstanceAs (Decidable (∀ b ∈ s, _))

inductive Escape : UInt8 → UInt8 → Prop
  | newline : Escape 110 10
  | carriageReturn : Escape 114 13
  | tab : Escape 116 9
  | quote : Escape 34 34
  | backslash : Escape 92 92
  | slash : Escape 47 47

/-- What stands between the quotes, and the text it denotes. -/
inductive StringBody : Bytes → Bytes → Prop
  | nil : StringBody [] []
  | plain {c : UInt8} {raw text : Bytes} (hc : 0x20 ≤ c) (hquote : c ≠ 34) (hback : c ≠ 92)
      (tail : StringBody raw text) : StringBody (c :: raw) (c :: text)
  | escape {e v : UInt8} {raw text : Bytes} (he : Escape e v) (tail : StringBody raw text) :
      StringBody (92 :: e :: raw) (v :: text)

inductive Member : Bytes → Bytes × Bytes → Prop
  | mk {a b c d rawName rawValue name value : Bytes} (ha : Blank a)
      (hname : StringBody rawName name) (hb : Blank b) (hc : Blank c)
      (hvalue : StringBody rawValue value) (hd : Blank d) :
      Member (a ++ 34 :: (rawName ++ 34 :: (b ++ 58 :: (c ++ 34 :: (rawValue ++ 34 :: d)))))
        (name, value)

inductive Members : Bytes → List (Bytes × Bytes) → Prop
  | last {s : Bytes} {m : Bytes × Bytes} (h : Member s m) : Members s [m]
  | more {s t : Bytes} {m : Bytes × Bytes} {ms : List (Bytes × Bytes)} (h : Member s m)
      (tail : Members t ms) : Members (s ++ 44 :: t) (m :: ms)

def KeyObject (json : Bytes) (ms : List (Bytes × Bytes)) : Prop :=
  ∃ a s b, json = a ++ 123 :: (s ++ 125 :: b) ∧ Blank a ∧ Members s ms ∧ Blank b

def valuesOf (name : Bytes) (ms : List (Bytes × Bytes)) : List Bytes :=
  ms.filterMap fun m => if m.1 = name then some m.2 else none

/-- The members of a key object: `key` once, `key_id` at most once, nothing else. -/
structure KeyMembers (ms : List (Bytes × Bytes)) (key : Bytes) (keyId : Option Bytes) : Prop where
  names : ∀ m ∈ ms, m.1 = ascii "key" ∨ m.1 = ascii "key_id"
  key_once : valuesOf (ascii "key") ms = [key]
  keyId_once : valuesOf (ascii "key_id") ms = keyId.toList

/-- The key objects that fit buffers of the given sizes; `none` is the null `key_id` buffer. -/
structure Accepts (json : Bytes) (keySize : ℕ) (keyIdSize : Option ℕ) (key : Bytes)
    (keyId : Option Bytes) : Prop where
  members : ∃ ms, KeyObject json ms ∧ KeyMembers ms key keyId
  key_fits : key.length ≤ keySize - 1
  key_not_blank : ¬ Blank key
  keyId_fits : ∀ id ∈ keyId, ∃ size ∈ keyIdSize, id.length < size

theorem ws_zero : cliIsAsciiWs 0 = false := by decide

theorem Blank.append {a b : Bytes} (ha : Blank a) (hb : Blank b) : Blank (a ++ b) := by
  intro x hx
  rcases List.mem_append.1 hx with hx | hx
  · exact ha x hx
  · exact hb x hx

theorem blank_takeWhile (s : Bytes) : Blank (s.takeWhile cliIsAsciiWs) := fun _ hx =>
  List.mem_takeWhile_imp hx

theorem Blank.noNul {s : Bytes} (h : Blank s) : 0 ∉ s := fun h0 => by
  simpa [ws_zero] using h 0 h0

theorem trim_eq_nil_iff (s : Bytes) : trim s = [] ↔ Blank s := strip_eq_nil_iff _ s

theorem dropWhile_blank_append {a : Bytes} (ha : Blank a) (s : Bytes) :
    (a ++ s).dropWhile cliIsAsciiWs = s.dropWhile cliIsAsciiWs :=
  List.dropWhile_append_of_pos ha

theorem escapeLookup_eq_some {e v : UInt8} : escapeLookup e = some v ↔ Escape e v := by
  constructor
  · intro h
    have hm : (e, v) ∈ escapeTable := by
      obtain ⟨l₁, l₂, hl, -⟩ := List.lookup_eq_some_iff.1 h
      rw [hl]
      simp
    simp only [escapeTable, List.mem_cons, List.not_mem_nil, or_false, Prod.mk.injEq] at hm
    rcases hm with ⟨rfl, rfl⟩ | ⟨rfl, rfl⟩ | ⟨rfl, rfl⟩ | ⟨rfl, rfl⟩ | ⟨rfl, rfl⟩ | ⟨rfl, rfl⟩
    · exact .newline
    · exact .carriageReturn
    · exact .tab
    · exact .quote
    · exact .backslash
    · exact .slash
  · intro h
    cases h <;> rfl

theorem Escape.ne_zero {e v : UInt8} (h : Escape e v) : e ≠ 0 ∧ v ≠ 0 := by
  cases h <;> decide

theorem plain_ne_zero {c : UInt8} (hc : 0x20 ≤ c) : c ≠ 0 := by
  rintro rfl
  exact absurd hc (by decide)

theorem StringBody.text_noNul {raw text : Bytes} (h : StringBody raw text) : 0 ∉ text := by
  induction h with
  | nil => simp
  | plain hc _ _ _ ih =>
    intro h0
    rcases List.mem_cons.1 h0 with h0 | h0
    · exact plain_ne_zero hc h0.symm
    · exact ih h0
  | escape he _ ih =>
    intro h0
    rcases List.mem_cons.1 h0 with h0 | h0
    · exact he.ne_zero.2 h0.symm
    · exact ih h0

theorem Member.blank_append {a s : Bytes} {m : Bytes × Bytes} (ha : Blank a) (h : Member s m) :
    Member (a ++ s) m := by
  obtain @⟨a', _, _, _, _, _, _, _, ha', hname, hb, hc, hvalue, hd⟩ := h
  rw [← List.append_assoc]
  exact .mk (ha.append ha') hname hb hc hvalue hd

theorem Members.blank_append {a s : Bytes} {ms : List (Bytes × Bytes)} (ha : Blank a)
    (h : Members s ms) : Members (a ++ s) ms := by
  cases h with
  | last h => exact .last (h.blank_append ha)
  | more h tail =>
    rw [← List.append_assoc]
    exact .more (h.blank_append ha) tail

theorem Member.exists_quote {s : Bytes} {m : Bytes × Bytes} (h : Member s m) :
    ∃ a w, s = a ++ 34 :: w ∧ Blank a ∧ Member (34 :: w) m := by
  obtain ⟨ha, hname, hb, hc, hvalue, hd⟩ := h
  exact ⟨_, _, rfl, ha, .mk (a := []) (by simp [Blank]) hname hb hc hvalue hd⟩

theorem Members.exists_quote {s : Bytes} {ms : List (Bytes × Bytes)} (h : Members s ms) :
    ∃ a w, s = a ++ 34 :: w ∧ Blank a ∧ Members (34 :: w) ms := by
  cases h with
  | last hm =>
    obtain ⟨a, w, rfl, ha, hm⟩ := hm.exists_quote
    exact ⟨a, w, rfl, ha, .last hm⟩
  | @more _ t _ _ hm tail =>
    obtain ⟨a, w, rfl, ha, hm⟩ := hm.exists_quote
    exact ⟨a, w ++ 44 :: t, by simp, ha, .more hm tail⟩

structure Slot where
  buffer : Option Bytes
  set : Bool

def written (text buffer : Bytes) : Bytes := text ++ 0 :: buffer.drop (text.length + 1)

theorem written_length {text buffer : Bytes} (h : text.length < buffer.length) :
    (written text buffer).length = buffer.length := by
  simp only [written, List.length_append, List.length_cons, List.length_drop]
  omega

def Slot.fill (s : Slot) (text : Bytes) : Option Slot :=
  match s.buffer with
  | none => none
  | some buffer =>
    if s.set = false ∧ text.length < buffer.length then some ⟨some (written text buffer), true⟩
    else none

structure Slots where
  key : Slot
  keyId : Slot

def Slots.absorb (s : Slots) (m : Bytes × Bytes) : Option Slots :=
  if m.1 = ascii "key" then (s.key.fill m.2).map fun key => { s with key }
  else if m.1 = ascii "key_id" then (s.keyId.fill m.2).map fun keyId => { s with keyId }
  else none

theorem Slot.fill_eq_some {s t : Slot} {text : Bytes} : s.fill text = some t ↔
    ∃ buffer, s = ⟨some buffer, false⟩ ∧ text.length < buffer.length ∧
      t = ⟨some (written text buffer), true⟩ := by
  obtain ⟨_ | buffer, set⟩ := s
  · simp [Slot.fill]
  · cases set <;> simp [Slot.fill, eq_comm]

/-- An empty slot takes one text, a filled one none. -/
theorem Slot.foldlM_fill {s t : Slot} {texts : List Bytes} :
    texts.foldlM Slot.fill s = some t ↔ texts = [] ∧ t = s ∨
      ∃ text, texts = [text] ∧ s.fill text = some t := by
  cases texts with
  | nil => simp [eq_comm]
  | cons text texts =>
    rw [List.foldlM_cons]
    constructor
    · intro h
      obtain ⟨s', hs', h⟩ := Option.bind_eq_some_iff.1 h
      cases texts with
      | nil =>
        obtain rfl : s' = t := by simpa using h
        exact .inr ⟨text, rfl, hs'⟩
      | cons text' texts =>
        obtain ⟨_, _, _, rfl⟩ := fill_eq_some.1 hs'
        rw [List.foldlM_cons] at h
        obtain ⟨s'', hs'', _⟩ := Option.bind_eq_some_iff.1 h
        obtain ⟨_, habs, _⟩ := fill_eq_some.1 hs''
        simp at habs
    · rintro (⟨habs, _⟩ | ⟨_, h, ht⟩)
      · simp at habs
      · obtain ⟨rfl, rfl⟩ := List.cons_eq_cons.1 h
        simp [ht]

theorem valuesOf_cons_self (name value : Bytes) (ms : List (Bytes × Bytes)) :
    valuesOf name ((name, value) :: ms) = value :: valuesOf name ms := by
  simp [valuesOf]

theorem valuesOf_cons_ne {name : Bytes} {m : Bytes × Bytes} (h : m.1 ≠ name)
    (ms : List (Bytes × Bytes)) : valuesOf name (m :: ms) = valuesOf name ms := by
  simp [valuesOf, h]

/-- A member list acts on the two slots independently. -/
theorem Slots.foldlM_absorb {s t : Slots} {ms : List (Bytes × Bytes)} :
    ms.foldlM Slots.absorb s = some t ↔
      (∀ m ∈ ms, m.1 = ascii "key" ∨ m.1 = ascii "key_id") ∧
      (valuesOf (ascii "key") ms).foldlM Slot.fill s.key = some t.key ∧
      (valuesOf (ascii "key_id") ms).foldlM Slot.fill s.keyId = some t.keyId := by
  have hne : ascii "key" ≠ ascii "key_id" := by decide
  induction ms generalizing s with
  | nil =>
    obtain ⟨a, b⟩ := s
    obtain ⟨c, d⟩ := t
    simp [valuesOf]
  | cons m ms ih =>
    obtain ⟨name, value⟩ := m
    rw [List.foldlM_cons, List.forall_mem_cons]
    by_cases hk : name = ascii "key"
    · subst hk
      rw [Slots.absorb, if_pos rfl, valuesOf_cons_self, valuesOf_cons_ne hne, List.foldlM_cons]
      cases hf : s.key.fill value with
      | none => simp
      | some k => simp [ih]
    · by_cases hi : name = ascii "key_id"
      · subst hi
        rw [Slots.absorb, if_neg hk, if_pos rfl, valuesOf_cons_self, valuesOf_cons_ne hk,
          List.foldlM_cons]
        cases hf : s.keyId.fill value with
        | none => simp
        | some k => simp [ih]
      · simp [Slots.absorb, hk, hi]

structure Filled (keyB64 : Bytes) (keyId : Option Bytes) (key : Bytes) (id : Option Bytes)
    (t : Slots) : Prop where
  key_fits : key.length < keyB64.length
  key : t.key = ⟨some (written key keyB64), true⟩
  keyId : id = none ∧ t.keyId = ⟨keyId, false⟩ ∨ ∃ text buffer, id = some text ∧
    keyId = some buffer ∧ text.length < buffer.length ∧ t.keyId = ⟨some (written text buffer), true⟩

/-- From two empty slots, the lists that leave the key slot filled, and what they leave. -/
theorem absorb_all_iff {keyB64 : Bytes} {keyId : Option Bytes} {ms : List (Bytes × Bytes)}
    {t : Slots} :
    ms.foldlM Slots.absorb ⟨⟨some keyB64, false⟩, ⟨keyId, false⟩⟩ = some t ∧ t.key.set = true ↔
      ∃ key id, KeyMembers ms key id ∧ Filled keyB64 keyId key id t := by
  rw [Slots.foldlM_absorb, Slot.foldlM_fill, Slot.foldlM_fill]
  constructor
  · rintro ⟨⟨hnames, hkey, hid⟩, hset⟩
    rcases hkey with ⟨-, hkey⟩ | ⟨key, hvk, hkey⟩
    · simp [hkey] at hset
    · obtain ⟨buffer, hb, hlt, htk⟩ := Slot.fill_eq_some.1 hkey
      obtain rfl : keyB64 = buffer := by simpa using hb
      rcases hid with ⟨hvi, hid⟩ | ⟨text, hvi, hid⟩
      · exact ⟨key, none, ⟨hnames, hvk, hvi⟩, hlt, htk, .inl ⟨rfl, hid⟩⟩
      · obtain ⟨buffer, hb, hil, hti⟩ := Slot.fill_eq_some.1 hid
        obtain rfl : keyId = some buffer := by simpa using hb
        exact ⟨key, some text, ⟨hnames, hvk, hvi⟩, hlt, htk, .inr ⟨text, buffer, rfl, rfl, hil, hti⟩⟩
  · rintro ⟨key, id, ⟨hnames, hvk, hvi⟩, hlt, hkey, hid⟩
    have hfill : Slot.fill ⟨some keyB64, false⟩ key = some t.key :=
      Slot.fill_eq_some.2 ⟨keyB64, rfl, hlt, hkey⟩
    refine ⟨⟨hnames, .inr ⟨key, hvk, hfill⟩, ?_⟩, by rw [hkey]⟩
    rcases hid with ⟨rfl, hid⟩ | ⟨text, buffer, rfl, rfl, hil, hid⟩
    · exact .inl ⟨hvi, hid⟩
    · exact .inr ⟨text, hvi, Slot.fill_eq_some.2 ⟨buffer, rfl, hil, hid⟩⟩

theorem StringBody.noNul {raw text : Bytes} (h : StringBody raw text) : 0 ∉ raw := by
  induction h with
  | nil => simp
  | plain hc _ _ _ ih =>
    intro h0
    rcases List.mem_cons.1 h0 with h0 | h0
    · exact plain_ne_zero hc h0.symm
    · exact ih h0
  | escape he _ ih =>
    intro h0
    simp only [List.mem_cons] at h0
    rcases h0 with h0 | h0 | h0
    · exact absurd h0 (by decide)
    · exact he.ne_zero.1 h0.symm
    · exact ih h0

theorem Members.values_noNul {s : Bytes} {ms : List (Bytes × Bytes)} (h : Members s ms) :
    ∀ m ∈ ms, 0 ∉ m.2 := by
  have hone {s : Bytes} {m : Bytes × Bytes} (h : Member s m) : 0 ∉ m.2 := by
    cases h with
    | mk _ _ _ _ hvalue _ => exact hvalue.text_noNul
  induction h with
  | last h => simpa using hone h
  | more h _ ih => exact List.forall_mem_cons.2 ⟨hone h, ih⟩

theorem Member.noNul {s : Bytes} {m : Bytes × Bytes} (h : Member s m) : 0 ∉ s := by
  cases h with
  | mk ha hname hb hc hvalue hd =>
    simp [ha.noNul, hname.noNul, hb.noNul, hc.noNul, hvalue.noNul, hd.noNul]

theorem Members.noNul {s : Bytes} {ms : List (Bytes × Bytes)} (h : Members s ms) : 0 ∉ s := by
  induction h with
  | last h => exact h.noNul
  | more h _ ih => simp [h.noNul, ih]

theorem KeyObject.noNul {json : Bytes} {ms : List (Bytes × Bytes)} (h : KeyObject json ms) :
    0 ∉ json := by
  obtain ⟨a, s, b, rfl, ha, hms, hb⟩ := h
  simp [ha.noNul, hms.noNul, hb.noNul]

theorem mem_valuesOf {name value : Bytes} {ms : List (Bytes × Bytes)}
    (h : value ∈ valuesOf name ms) : (name, value) ∈ ms := by
  obtain ⟨m, hm, hval⟩ := List.mem_filterMap.1 h
  by_cases hname : m.1 = name
  · rw [if_pos hname, Option.some.injEq] at hval
    rwa [← hname, ← hval]
  · simp [hname] at hval

theorem KeyMembers.noNul {s key : Bytes} {id : Option Bytes} {ms : List (Bytes × Bytes)}
    (h : KeyMembers ms key id) (hms : Members s ms) : 0 ∉ key ∧ ∀ text ∈ id, 0 ∉ text := by
  refine ⟨?_, fun text htext => ?_⟩
  · exact hms.values_noNul _ (mem_valuesOf (by rw [h.key_once]; simp))
  · have hmem : text ∈ valuesOf (ascii "key_id") ms := by
      rw [h.keyId_once, htext]
      simp
    exact hms.values_noNul _ (mem_valuesOf hmem)

end Salt.KeyGrammar
