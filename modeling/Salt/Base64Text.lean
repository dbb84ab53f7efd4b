import Salt.ByteStrings
import Mathlib.Tactic.Common

set_option autoImplicit false

/-!
# Base64 texts over the standard alphabet

`encode` is the RFC 4648 encoder with and without padding. `decodePrefix`
reads the longest run of alphabet characters, requires the unused low bits to
be zero and, for the padded variant, exactly the padding that completes the
last group; it says where it stopped. Reading a whole text and encoding are
inverse to each other.
-/
namespace Base64Text
open ByteStrings

def valueChar (v : ℕ) : UInt8 :=
  if v < 26 then UInt8.ofNat (65 + v)
  else if v < 52 then UInt8.ofNat (71 + v)
  else if v < 62 then UInt8.ofNat (v - 4)
  else if v = 62 then 43
  else 47

def charValue (c : UInt8) : Option ℕ :=
  if 65 ≤ c ∧ c ≤ 90 then some (c.toNat - 65)
  else if 97 ≤ c ∧ c ≤ 122 then some (c.toNat - 71)
  else if 48 ≤ c ∧ c ≤ 57 then some (c.toNat + 4)
  else if c = 43 then some 62
  else if c = 47 then some 63
  else none

theorem charValue_eq_some_iff (c : UInt8) (v : ℕ) :
    charValue c = some v ↔ v < 64 ∧ c = valueChar v := by
  simp only [charValue, valueChar, UInt8.le_iff_toNat_le, ← UInt8.toNat_inj,
    apply_ite UInt8.toNat, UInt8.toNat_ofNat', UInt8.reduceToNat]
  constructor
  · intro h
    split_ifs at h <;> simp only [Option.some.injEq] at h <;> subst h <;>
      refine ⟨by omega, ?_⟩ <;> split_ifs <;> omega
  · rintro ⟨hv, hc⟩
    split_ifs at hc <;> split_ifs <;> first | omega | (apply congrArg some; omega)

theorem charValue_valueChar {v : ℕ} (h : v < 64) : charValue (valueChar v) = some v :=
  (charValue_eq_some_iff _ _).2 ⟨h, rfl⟩

def inAlphabet (c : UInt8) : Bool := (charValue c).isSome

/-- The six-bit groups of a byte string, the last one filled with zero bits. -/
def encodeValues : Bytes → List ℕ
  | [] => []
  | [a] => [a.toNat / 4, a.toNat % 4 * 16]
  | [a, b] => [a.toNat / 4, a.toNat % 4 * 16 + b.toNat / 16, b.toNat % 16 * 4]
  | a :: b :: c :: rest =>
    a.toNat / 4 :: (a.toNat % 4 * 16 + b.toNat / 16) :: (b.toNat % 16 * 4 + c.toNat / 64) ::
      c.toNat % 64 :: encodeValues rest

def decodeValues : List ℕ → Option Bytes
  | [] => some []
  | [_] => none
  | [a, b] => if b % 16 = 0 then some [UInt8.ofNat (a * 4 + b / 16)] else none
  | [a, b, c] =>
    if c % 4 = 0 then some [UInt8.ofNat (a * 4 + b / 16), UInt8.ofNat (b % 16 * 16 + c / 4)]
    else none
  | a :: b :: c :: d :: rest =>
    (decodeValues rest).map fun tail => UInt8.ofNat (a * 4 + b / 16) ::
      UInt8.ofNat (b % 16 * 16 + c / 4) :: UInt8.ofNat (c % 4 * 64 + d) :: tail

def padding (n : ℕ) : Bytes := List.replicate ((4 - n % 4) % 4) 61

def encode (padded : Bool) (s : Bytes) : Bytes :=
  let cs := (encodeValues s).map valueChar
  cs ++ if padded then padding cs.length else []

def decodePrefix (padded : Bool) (s : Bytes) : Option (Bytes × ℕ) :=
  let cs := s.takeWhile inAlphabet
  (decodeValues (cs.filterMap charValue)).bind fun out =>
    if padded then
      let pad := padding cs.length
      if pad.isPrefixOf (s.drop cs.length) then some (out, cs.length + pad.length) else none
    else some (out, cs.length)

theorem encodeValues_lt (s : Bytes) : ∀ v ∈ encodeValues s, v < 64 := by
  fun_induction encodeValues s with
  | case1 => simp
  | case2 a =>
    have := a.toNat_lt
    simp only [List.mem_cons, List.not_mem_nil, or_false]
    omega
  | case3 a b =>
    have := a.toNat_lt
    have := b.toNat_lt
    simp only [List.mem_cons, List.not_mem_nil, or_false]
    omega
  | case4 a b c rest ih =>
    have := a.toNat_lt
    have := b.toNat_lt
    have := c.toNat_lt
    intro v hv
    simp only [List.mem_cons] at hv
    rcases hv with h | h | h | h | h
    · omega
    · omega
    · omega
    · omega
    · exact ih v h

theorem ofNat_toNat_eq {n : ℕ} {b : UInt8} (h : n = b.toNat) : UInt8.ofNat n = b := by
  subst h
  exact UInt8.ofNat_toNat

theorem decodeValues_encodeValues (s : Bytes) : decodeValues (encodeValues s) = some s := by
  fun_induction encodeValues s with
  | case1 => rfl
  | case2 a =>
    rw [decodeValues, if_pos (by omega), ofNat_toNat_eq (b := a) (by omega)]
  | case3 a b =>
    have := b.toNat_lt
    rw [decodeValues, if_pos (by omega), ofNat_toNat_eq (b := a) (by omega),
      ofNat_toNat_eq (b := b) (by omega)]
  | case4 a b c rest ih =>
    have := b.toNat_lt
    have := c.toNat_lt
    rw [decodeValues, ih, Option.map_some, ofNat_toNat_eq (b := a) (by omega),
      ofNat_toNat_eq (b := b) (by omega), ofNat_toNat_eq (b := c) (by omega)]

theorem encodeValues_of_decodeValues {vs : List ℕ} {s : Bytes} (hlt : ∀ v ∈ vs, v < 64)
    (h : decodeValues vs = some s) : encodeValues s = vs := by
  fun_induction decodeValues vs generalizing s with
  | case1 => obtain rfl := Option.some.inj h; rfl
  | case2 => simp at h
  | case3 a b hb =>
    obtain rfl := Option.some.inj h
    have ha := hlt a (by simp)
    have hb' := hlt b (by simp)
    simp only [encodeValues, UInt8.toNat_ofNat', List.cons.injEq, and_true]
    omega
  | case4 => simp at h
  | case5 a b c hc =>
    obtain rfl := Option.some.inj h
    have ha := hlt a (by simp)
    have hb' := hlt b (by simp)
    have hc' := hlt c (by simp)
    simp only [encodeValues, UInt8.toNat_ofNat', List.cons.injEq, and_true]
    omega
  | case6 => simp at h
  | case7 a b c d rest ih =>
    obtain ⟨tail, ht, rfl⟩ := Option.map_eq_some_iff.1 h
    have ha := hlt a (by simp)
    have hb' := hlt b (by simp)
    have hc' := hlt c (by simp)
    have hd' := hlt d (by simp)
    have hrest := ih (fun v hv => hlt v (by simp [hv])) ht
    simp only [encodeValues, UInt8.toNat_ofNat', hrest, List.cons.injEq, and_true]
    omega

theorem filterMap_map_valueChar {vs : List ℕ} (h : ∀ v ∈ vs, v < 64) :
    (vs.map valueChar).filterMap charValue = vs := by
  induction vs with
  | nil => rfl
  | cons v vs ih =>
    have hv := charValue_valueChar (h v (by simp))
    rw [List.map_cons, List.filterMap_cons_some hv, ih fun w hw => h w (by simp [hw])]

theorem map_filterMap_charValue {cs : Bytes} (h : ∀ c ∈ cs, inAlphabet c = true) :
    (cs.filterMap charValue).map valueChar = cs ∧ ∀ v ∈ cs.filterMap charValue, v < 64 := by
  induction cs with
  | nil => simp
  | cons c cs ih =>
    obtain ⟨v, hv⟩ := Option.isSome_iff_exists.1 (h c (by simp))
    obtain ⟨hmap, hlt⟩ := ih fun x hx => h x (by simp [hx])
    obtain ⟨hv', hc⟩ := (charValue_eq_some_iff c v).1 hv
    rw [List.filterMap_cons_some hv]
    refine ⟨by rw [List.map_cons, hmap, ← hc], ?_⟩
    intro w hw
    rcases List.mem_cons.1 hw with rfl | hw
    · exact hv'
    · exact hlt w hw

theorem takeWhile_encode (padded : Bool) (s : Bytes) :
    (encode padded s).takeWhile inAlphabet = (encodeValues s).map valueChar := by
  have hall : ∀ c ∈ (encodeValues s).map valueChar, inAlphabet c = true := by
    intro c hc
    obtain ⟨v, hv, rfl⟩ := List.mem_map.1 hc
    simp [inAlphabet, charValue_valueChar (encodeValues_lt s v hv)]
  rw [encode, List.takeWhile_append_of_pos hall]
  have hrest : ∀ l : Bytes, (∀ c ∈ l, c = 61) → l.takeWhile inAlphabet = [] := by
    intro l hl
    cases l with
    | nil => rfl
    | cons c l =>
      obtain rfl := hl c (by simp)
      rfl
  rw [hrest, List.append_nil]
  cases padded
  · simp
  · simp [padding]

theorem decodePrefix_encode (padded : Bool) (s : Bytes) :
    decodePrefix padded (encode padded s) = some (s, (encode padded s).length) := by
  rw [decodePrefix, takeWhile_encode, filterMap_map_valueChar (encodeValues_lt s),
    decodeValues_encodeValues, Option.bind_some]
  cases padded
  · simp [encode]
  · simp [encode]

/-- A text read to its end is the encoding of what was read. -/
theorem eq_encode_of_decodePrefix {padded : Bool} {s out : Bytes}
    (h : decodePrefix padded s = some (out, s.length)) : s = encode padded out := by
  unfold decodePrefix at h
  obtain ⟨out', hout, h⟩ := Option.bind_eq_some_iff.1 h
  have hall : ∀ c ∈ s.takeWhile inAlphabet, inAlphabet c = true := fun c hc =>
    List.mem_takeWhile_imp hc
  obtain ⟨hmap, hlt⟩ := map_filterMap_charValue hall
  have hvals := encodeValues_of_decodeValues hlt hout
  have hsplit : s.takeWhile inAlphabet ++ s.drop (s.takeWhile inAlphabet).length = s :=
    List.prefix_iff_eq_append.1 (List.takeWhile_prefix inAlphabet)
  have hlen := congrArg List.length hsplit
  rw [List.length_append] at hlen
  cases padded with
  | false =>
    simp only [Bool.false_eq_true, if_false, Option.some.injEq, Prod.mk.injEq] at h
    obtain ⟨rfl, hl⟩ := h
    have hd : s.drop (s.takeWhile inAlphabet).length = [] :=
      List.length_eq_zero_iff.1 (by omega)
    rw [encode, hvals, hmap, if_neg (by decide), List.append_nil]
    rw [hd, List.append_nil] at hsplit
    exact hsplit.symm
  | true =>
    simp only [if_true] at h
    split_ifs at h with hp
    simp only [Option.some.injEq, Prod.mk.injEq] at h
    obtain ⟨rfl, hl⟩ := h
    have hd : s.drop (s.takeWhile inAlphabet).length =
        padding (s.takeWhile inAlphabet).length := by
      rw [List.isPrefixOf_iff_prefix] at hp
      exact (hp.eq_of_length (by omega)).symm
    rw [encode, hvals, hmap, if_pos rfl, ← hd]
    exact hsplit.symm

theorem decodePrefix_all_iff (padded : Bool) (s out : Bytes) :
    decodePrefix padded s = some (out, s.length) ↔ s = encode padded out := by
  constructor
  · exact eq_encode_of_decodePrefix
  · rintro rfl
    exact decodePrefix_encode padded out

theorem encodeValues_length (s : Bytes) :
    (encodeValues s).length = s.length / 3 * 4 + (s.length % 3 * 4 + 2) / 3 := by
  fun_induction encodeValues s with
  | case1 => rfl
  | case2 => simp
  | case3 => simp
  | case4 a b c rest ih =>
    simp only [List.length_cons, ih]
    omega

theorem encode_length_padded (s : Bytes) :
    (encode true s).length = 4 * ((s.length + 2) / 3) := by
  simp only [encode, padding, if_true, List.length_append, List.length_map,
    List.length_replicate, encodeValues_length]
  omega

theorem encode_length_unpadded (s : Bytes) :
    (encode false s).length = s.length / 3 * 4 + (s.length % 3 * 4 + 2) / 3 := by
  simp [encode, encodeValues_length]

theorem encode_ascii (padded : Bool) (s : Bytes) : ∀ c ∈ encode padded s, 43 ≤ c ∧ c ≤ 122 := by
  have hchar : ∀ v, 43 ≤ valueChar v ∧ valueChar v ≤ 122 := by
    intro v
    unfold valueChar
    simp only [UInt8.le_iff_toNat_le, UInt8.reduceToNat]
    split_ifs <;> simp <;> omega
  intro c hc
  rcases List.mem_append.1 hc with hc | hc
  · obtain ⟨v, _, rfl⟩ := List.mem_map.1 hc
    exact hchar v
  · cases padded with
    | false => simp at hc
    | true =>
      obtain rfl : c = 61 := by
        simp only [padding, if_true] at hc
        exact (List.mem_replicate.1 hc).2
      decide

example : encode true [77, 97] = ascii "TWE=" := by decide

end Base64Text
