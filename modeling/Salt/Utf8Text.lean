import Salt.ByteStrings
import Mathlib.Tactic.Common

set_option autoImplicit false

/-!
# UTF-8 byte strings

The encoder is the core library's; a Lean character is exactly a Unicode
scalar value. `sequenceLength` is the table of well-formed byte sequences, and
the main result of the file is that the table and the encoder agree.
-/
namespace Utf8Text
open ByteStrings

def encode (cs : List Char) : Bytes := cs.flatMap String.utf8EncodeChar

def WellFormed (s : Bytes) : Prop := ∃ cs, s = encode cs

def IsTail (b : UInt8) : Prop := 0x80 ≤ b ∧ b ≤ 0xBF

instance (b : UInt8) : Decidable (IsTail b) := inferInstanceAs (Decidable (_ ∧ _))

/-- The first continuation byte is narrower after four of the lead bytes: no
    overlong form, no surrogate and nothing above U+10FFFF. -/
def IsSecond (lead b : UInt8) : Prop :=
  IsTail b ∧ (lead = 0xE0 → 0xA0 ≤ b) ∧ (lead = 0xED → b ≤ 0x9F) ∧
    (lead = 0xF0 → 0x90 ≤ b) ∧ (lead = 0xF4 → b ≤ 0x8F)

instance (lead b : UInt8) : Decidable (IsSecond lead b) :=
  inferInstanceAs (Decidable (_ ∧ _))

/-- The length of the well-formed sequence at the start of a byte string. -/
def sequenceLength : Bytes → Option ℕ
  | [] => none
  | b :: rest =>
    if b ≤ 0x7F then some 1
    else if 0xC2 ≤ b ∧ b ≤ 0xDF then
      match rest with
      | b2 :: _ => if IsTail b2 then some 2 else none
      | _ => none
    else if 0xE0 ≤ b ∧ b ≤ 0xEF then
      match rest with
      | b2 :: b3 :: _ => if IsSecond b b2 ∧ IsTail b3 then some 3 else none
      | _ => none
    else if 0xF0 ≤ b ∧ b ≤ 0xF4 then
      match rest with
      | b2 :: b3 :: b4 :: _ => if IsSecond b b2 ∧ IsTail b3 ∧ IsTail b4 then some 4 else none
      | _ => none
    else none

theorem exists_char (n : ℕ) (h : n < 0xD800 ∨ (0xDFFF < n ∧ n < 0x110000)) :
    ∃ c : Char, c.toNat = n := by
  refine ⟨Char.ofNatAux n h, ?_⟩
  rfl

theorem char_range (c : Char) :
    c.toNat < 0xD800 ∨ (0xDFFF < c.toNat ∧ c.toNat < 0x110000) := c.valid

theorem encodeChar_one {c : Char} (h : c.toNat ≤ 0x7f) :
    String.utf8EncodeChar c = [UInt8.ofNat c.toNat] :=
  if_pos h

theorem encodeChar_two {c : Char} (h : 0x7f < c.toNat) (h' : c.toNat ≤ 0x7ff) :
    String.utf8EncodeChar c = [UInt8.ofNat (c.toNat / 64 % 32 + 0xc0),
      UInt8.ofNat (c.toNat % 64 + 0x80)] :=
  (if_neg (Nat.not_le.2 h)).trans (if_pos h')

theorem encodeChar_three {c : Char} (h : 0x7ff < c.toNat) (h' : c.toNat ≤ 0xffff) :
    String.utf8EncodeChar c = [UInt8.ofNat (c.toNat / 4096 % 16 + 0xe0),
      UInt8.ofNat (c.toNat / 64 % 64 + 0x80), UInt8.ofNat (c.toNat % 64 + 0x80)] :=
  (if_neg (by change ¬ c.toNat ≤ _; omega)).trans
    ((if_neg (by change ¬ c.toNat ≤ _; omega)).trans (if_pos h'))

theorem encodeChar_four {c : Char} (h : 0xffff < c.toNat) :
    String.utf8EncodeChar c = [UInt8.ofNat (c.toNat / 262144 % 8 + 0xf0),
      UInt8.ofNat (c.toNat / 4096 % 64 + 0x80), UInt8.ofNat (c.toNat / 64 % 64 + 0x80),
      UInt8.ofNat (c.toNat % 64 + 0x80)] :=
  (if_neg (by change ¬ c.toNat ≤ _; omega)).trans
    ((if_neg (by change ¬ c.toNat ≤ _; omega)).trans
      (if_neg (by change ¬ c.toNat ≤ _; omega)))

theorem sequenceLength_two {b b2 : UInt8} (h : 0xC2 ≤ b ∧ b ≤ 0xDF) (h2 : IsTail b2)
    (rest : Bytes) : sequenceLength (b :: b2 :: rest) = some 2 := by
  have h1 : ¬ b ≤ 0x7F := by
    simp only [UInt8.le_iff_toNat_le, UInt8.reduceToNat] at h ⊢
    omega
  simp only [sequenceLength, if_neg h1, if_pos h, if_pos h2]

theorem sequenceLength_three {b b2 b3 : UInt8} (h : 0xE0 ≤ b ∧ b ≤ 0xEF) (h2 : IsSecond b b2)
    (h3 : IsTail b3) (rest : Bytes) : sequenceLength (b :: b2 :: b3 :: rest) = some 3 := by
  have h1 : ¬ b ≤ 0x7F ∧ ¬ (0xC2 ≤ b ∧ b ≤ 0xDF) := by
    simp only [UInt8.le_iff_toNat_le, UInt8.reduceToNat] at h ⊢
    omega
  simp only [sequenceLength, if_neg h1.1, if_neg h1.2, if_pos h, if_pos (And.intro h2 h3)]

theorem sequenceLength_four {b b2 b3 b4 : UInt8} (h : 0xF0 ≤ b ∧ b ≤ 0xF4)
    (h2 : IsSecond b b2) (h3 : IsTail b3) (h4 : IsTail b4) (rest : Bytes) :
    sequenceLength (b :: b2 :: b3 :: b4 :: rest) = some 4 := by
  have h1 : ¬ b ≤ 0x7F ∧ ¬ (0xC2 ≤ b ∧ b ≤ 0xDF) ∧ ¬ (0xE0 ≤ b ∧ b ≤ 0xEF) := by
    simp only [UInt8.le_iff_toNat_le, UInt8.reduceToNat] at h ⊢
    omega
  simp only [sequenceLength, if_neg h1.1, if_neg h1.2.1, if_neg h1.2.2, if_pos h,
    if_pos (And.intro h2 (And.intro h3 h4))]

theorem sequenceLength_encodeChar (c : Char) (rest : Bytes) :
    sequenceLength (String.utf8EncodeChar c ++ rest) = some (String.utf8EncodeChar c).length := by
  have hc := char_range c
  rcases Nat.lt_or_ge 0x7f c.toNat with h1 | h1
  swap
  · rw [encodeChar_one h1]
    simp [sequenceLength, UInt8.le_iff_toNat_le]
    omega
  rcases Nat.lt_or_ge 0x7ff c.toNat with h2 | h2
  swap
  · rw [encodeChar_two h1 h2]
    apply sequenceLength_two <;>
    · simp only [IsTail, UInt8.le_iff_toNat_le, UInt8.reduceToNat, UInt8.toNat_ofNat']
      omega
  rcases Nat.lt_or_ge 0xffff c.toNat with h3 | h3
  swap
  · rw [encodeChar_three h2 h3]
    apply sequenceLength_three <;>
    · simp only [IsTail, IsSecond, UInt8.le_iff_toNat_le, UInt8.reduceToNat, ← UInt8.toNat_inj,
        UInt8.toNat_ofNat']
      omega
  · rw [encodeChar_four h3]
    apply sequenceLength_four <;>
    · simp only [IsTail, IsSecond, UInt8.le_iff_toNat_le, UInt8.reduceToNat, ← UInt8.toNat_inj,
        UInt8.toNat_ofNat']
      omega

theorem ofNat_eq {b : UInt8} {n : ℕ} (h : n = b.toNat) : UInt8.ofNat n = b := by
  subst h
  exact UInt8.ofNat_toNat

theorem exists_two {b b2 : UInt8} (h : 0xC2 ≤ b ∧ b ≤ 0xDF) (h2 : IsTail b2) :
    ∃ c : Char, String.utf8EncodeChar c = [b, b2] := by
  simp only [IsTail, UInt8.le_iff_toNat_le, UInt8.reduceToNat] at h h2
  obtain ⟨c, hc⟩ := exists_char ((b.toNat - 0xc0) * 64 + (b2.toNat - 0x80)) (by omega)
  refine ⟨c, ?_⟩
  rw [encodeChar_two (by omega) (by omega), hc]
  simp only [List.cons.injEq, and_true]
  exact ⟨ofNat_eq (by omega), ofNat_eq (by omega)⟩

theorem exists_three {b b2 b3 : UInt8} (h : 0xE0 ≤ b ∧ b ≤ 0xEF) (h2 : IsSecond b b2)
    (h3 : IsTail b3) : ∃ c : Char, String.utf8EncodeChar c = [b, b2, b3] := by
  simp only [IsTail, IsSecond, UInt8.le_iff_toNat_le, UInt8.reduceToNat, ← UInt8.toNat_inj]
    at h h2 h3
  obtain ⟨c, hc⟩ := exists_char
    ((b.toNat - 0xe0) * 4096 + (b2.toNat - 0x80) * 64 + (b3.toNat - 0x80)) (by omega)
  refine ⟨c, ?_⟩
  rw [encodeChar_three (by omega) (by omega), hc]
  simp only [List.cons.injEq, and_true]
  exact ⟨ofNat_eq (by omega), ofNat_eq (by omega), ofNat_eq (by omega)⟩

theorem exists_four {b b2 b3 b4 : UInt8} (h : 0xF0 ≤ b ∧ b ≤ 0xF4) (h2 : IsSecond b b2)
    (h3 : IsTail b3) (h4 : IsTail b4) :
    ∃ c : Char, String.utf8EncodeChar c = [b, b2, b3, b4] := by
  simp only [IsTail, IsSecond, UInt8.le_iff_toNat_le, UInt8.reduceToNat, ← UInt8.toNat_inj]
    at h h2 h3 h4
  obtain ⟨c, hc⟩ := exists_char ((b.toNat - 0xf0) * 262144 + (b2.toNat - 0x80) * 4096 +
    (b3.toNat - 0x80) * 64 + (b4.toNat - 0x80)) (by omega)
  refine ⟨c, ?_⟩
  rw [encodeChar_four (by omega), hc]
  simp only [List.cons.injEq, and_true]
  exact ⟨ofNat_eq (by omega), ofNat_eq (by omega), ofNat_eq (by omega), ofNat_eq (by omega)⟩

theorem exists_char_of_sequenceLength {s : Bytes} {n : ℕ} (h : sequenceLength s = some n) :
    ∃ c : Char, ∃ rest, s = String.utf8EncodeChar c ++ rest ∧
      n = (String.utf8EncodeChar c).length := by
  cases s with
  | nil => simp [sequenceLength] at h
  | cons b rest =>
    simp only [sequenceLength] at h
    split_ifs at h with h1 h2 h3 h4
    · simp only [UInt8.le_iff_toNat_le, UInt8.reduceToNat] at h1
      obtain ⟨c, hc⟩ := exists_char b.toNat (by omega)
      have he : String.utf8EncodeChar c = [b] := by
        rw [encodeChar_one (by omega), hc, UInt8.ofNat_toNat]
      exact ⟨c, rest, by simp [he], by simpa [he] using h.symm⟩
    · rcases rest with _ | ⟨b2, rest⟩
      · simp at h
      · simp only [] at h
        split_ifs at h with ht
        obtain ⟨c, hc⟩ := exists_two h2 ht
        exact ⟨c, rest, by simp [hc], by simpa [hc] using h.symm⟩
    · rcases rest with _ | ⟨b2, _ | ⟨b3, rest⟩⟩
      · simp at h
      · simp at h
      · simp only [] at h
        split_ifs at h with ht
        obtain ⟨c, hc⟩ := exists_three h3 ht.1 ht.2
        exact ⟨c, rest, by simp [hc], by simpa [hc] using h.symm⟩
    · rcases rest with _ | ⟨b2, _ | ⟨b3, _ | ⟨b4, rest⟩⟩⟩
      · simp at h
      · simp at h
      · simp at h
      · simp only [] at h
        split_ifs at h with ht
        obtain ⟨c, hc⟩ := exists_four h4 ht.1 ht.2.1 ht.2.2
        exact ⟨c, rest, by simp [hc], by simpa [hc] using h.symm⟩

theorem wellFormed_nil : WellFormed [] := ⟨[], rfl⟩

theorem wellFormed_encodeChar_append (c : Char) (s : Bytes) :
    WellFormed (String.utf8EncodeChar c ++ s) ↔ WellFormed s := by
  constructor
  · rintro ⟨cs, hcs⟩
    cases cs with
    | nil =>
      exact absurd (List.append_eq_nil_iff.1 hcs).1 String.utf8EncodeChar_ne_nil
    | cons d ds =>
      have hlen := sequenceLength_encodeChar c s
      change _ = String.utf8EncodeChar d ++ encode ds at hcs
      rw [hcs, sequenceLength_encodeChar, Option.some.injEq] at hlen
      exact ⟨ds, (List.append_inj hcs hlen.symm).2⟩
  · rintro ⟨cs, rfl⟩
    exact ⟨c :: cs, rfl⟩

theorem WellFormed.append {s t : Bytes} (hs : WellFormed s) (ht : WellFormed t) :
    WellFormed (s ++ t) := by
  obtain ⟨cs, rfl⟩ := hs
  obtain ⟨ds, rfl⟩ := ht
  exact ⟨cs ++ ds, by simp [encode]⟩

theorem wellFormed_of_ascii {s : Bytes} (h : ∀ b ∈ s, b < 0x80) : WellFormed s := by
  induction s with
  | nil => exact wellFormed_nil
  | cons b s ih =>
    have hb := h b (by simp)
    simp only [UInt8.lt_iff_toNat_lt, UInt8.reduceToNat] at hb
    obtain ⟨c, hc⟩ := exists_char b.toNat (by omega)
    have he : String.utf8EncodeChar c = [b] := by
      rw [encodeChar_one (by omega), hc, UInt8.ofNat_toNat]
    have hs := (wellFormed_encodeChar_append c s).2 (ih fun x hx => h x (by simp [hx]))
    simpa [he] using hs

theorem encodeChar_high {c : Char} (h : 0x80 ≤ c.toNat) :
    ∀ b ∈ String.utf8EncodeChar c, 0x80 ≤ b := by
  intro b hb
  simp only [UInt8.le_iff_toNat_le, UInt8.reduceToNat]
  rcases Nat.lt_or_ge 0x7ff c.toNat with h2 | h2
  swap
  · rw [encodeChar_two (by omega) h2] at hb
    simp only [List.mem_cons, List.not_mem_nil, or_false] at hb
    rcases hb with rfl | rfl <;> rw [UInt8.toNat_ofNat'] <;> omega
  rcases Nat.lt_or_ge 0xffff c.toNat with h3 | h3
  swap
  · rw [encodeChar_three h2 h3] at hb
    simp only [List.mem_cons, List.not_mem_nil, or_false] at hb
    rcases hb with rfl | rfl | rfl <;> rw [UInt8.toNat_ofNat'] <;> omega
  · rw [encodeChar_four h3] at hb
    simp only [List.mem_cons, List.not_mem_nil, or_false] at hb
    rcases hb with rfl | rfl | rfl | rfl <;> rw [UInt8.toNat_ofNat'] <;> omega

/-- Rewriting ASCII bytes by ASCII texts and keeping all others keeps a text well formed. -/
theorem WellFormed.flatMap_ascii {s : Bytes} (hs : WellFormed s) (f : UInt8 → Bytes)
    (hlow : ∀ b, b < 0x80 → ∀ x ∈ f b, x < 0x80) (hhigh : ∀ b, 0x80 ≤ b → f b = [b]) :
    WellFormed (s.flatMap f) := by
  obtain ⟨cs, rfl⟩ := hs
  induction cs with
  | nil => exact wellFormed_nil
  | cons c cs ih =>
    change WellFormed ((String.utf8EncodeChar c ++ encode cs).flatMap f)
    rw [List.flatMap_append]
    rcases Nat.lt_or_ge c.toNat 0x80 with hc | hc
    · refine (wellFormed_of_ascii ?_).append ih
      intro x hx
      rw [encodeChar_one (by omega), List.flatMap_singleton] at hx
      refine hlow _ ?_ x hx
      simp only [UInt8.lt_iff_toNat_lt, UInt8.toNat_ofNat', UInt8.reduceToNat]
      omega
    · have hid : (String.utf8EncodeChar c).flatMap f = String.utf8EncodeChar c := by
        have hmap : (String.utf8EncodeChar c).flatMap f =
            (String.utf8EncodeChar c).flatMap (fun b => [b]) :=
          List.flatMap_congr fun b hb => hhigh b (encodeChar_high hc b hb)
        simpa using hmap
      rw [hid]
      exact (wellFormed_encodeChar_append c _).2 ih

end Utf8Text
