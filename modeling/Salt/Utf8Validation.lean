import Salt.Emission
import Salt.Utf8Text

set_option autoImplicit false

/-!
# The UTF-8 validator of the output

The branches of the source agree with the table of well-formed sequences, and
the loop accepts exactly the well-formed texts.
-/
namespace Salt.Utf8Validation
open ByteStrings Utf8Text

theorem isValidUtf8Sequence_eq (s : Bytes) : isValidUtf8Sequence s = sequenceLength s := by
  cases s with
  | nil => rfl
  | cons b rest =>
    unfold isValidUtf8Sequence sequenceLength
    by_cases h1 : b ≤ 0x7F
    · simp only [if_pos h1]
    simp only [if_neg h1]
    by_cases h2 : b ≥ 0xC2 ∧ b ≤ 0xDF
    · rw [if_pos h2, if_pos h2]
      cases rest with
      | nil => rfl
      | cons b2 rest =>
        simp only [IsTail, UInt8.le_iff_toNat_le, UInt8.lt_iff_toNat_lt, gt_iff_lt,
          UInt8.reduceToNat]
        split_ifs <;> first | rfl | omega
    rw [if_neg h2, if_neg h2]
    by_cases h3 : b ≥ 0xE0 ∧ b ≤ 0xEF
    · have hlead : 0xE0 ≤ b.toNat ∧ b.toNat ≤ 0xEF := h3
      rw [if_pos h3, if_pos h3]
      rcases rest with _ | ⟨b2, _ | ⟨b3, rest⟩⟩
      · rfl
      · rfl
      · simp only [IsTail, IsSecond, imp_iff_not_or, UInt8.le_iff_toNat_le,
          UInt8.lt_iff_toNat_lt, gt_iff_lt, UInt8.reduceToNat, ← UInt8.toNat_inj, ne_eq]
        split_ifs <;> first | rfl | omega
    rw [if_neg h3, if_neg h3]
    by_cases h4 : b ≥ 0xF0 ∧ b ≤ 0xF4
    · have hlead : 0xF0 ≤ b.toNat ∧ b.toNat ≤ 0xF4 := h4
      rw [if_pos h4, if_pos h4]
      rcases rest with _ | ⟨b2, _ | ⟨b3, _ | ⟨b4, rest⟩⟩⟩
      · rfl
      · rfl
      · rfl
      · simp only [IsTail, IsSecond, imp_iff_not_or, UInt8.le_iff_toNat_le,
          UInt8.lt_iff_toNat_lt, gt_iff_lt, ge_iff_le, UInt8.reduceToNat, ← UInt8.toNat_inj]
        split_ifs <;> first | rfl | omega
    rw [if_neg h4, if_neg h4]

theorem validateFrom_iff (bytes : Bytes) (fuel i : ℕ) (h : bytes.length ≤ i + fuel) :
    validateFrom bytes fuel i = true ↔ WellFormed (bytes.drop i) := by
  induction fuel generalizing i with
  | zero =>
    rw [Nat.add_zero] at h
    simp [validateFrom, List.drop_of_length_le h, wellFormed_nil, h]
  | succ fuel ih =>
    rw [validateFrom, isValidUtf8Sequence_eq]
    by_cases hi : i < bytes.length
    · rw [if_pos hi]
      cases hseq : sequenceLength (bytes.drop i) with
      | none =>
        simp only [Bool.false_eq_true, false_iff]
        rintro ⟨cs, hcs⟩
        cases cs with
        | nil =>
          have hnil : bytes.drop i = [] := hcs
          rw [List.drop_eq_nil_iff] at hnil
          omega
        | cons c cs =>
          rw [hcs, show encode (c :: cs) = String.utf8EncodeChar c ++ encode cs from rfl,
            sequenceLength_encodeChar] at hseq
          exact absurd hseq (by simp)
      | some n =>
        obtain ⟨c, rest, hsplit, hn⟩ := exists_char_of_sequenceLength hseq
        have hpos : 0 < n := by
          rw [hn]
          exact List.length_pos_iff.2 String.utf8EncodeChar_ne_nil
        have hrest : bytes.drop (i + n) = rest := by
          rw [← List.drop_drop, hsplit, hn, List.drop_left]
        simp only []
        rw [ih (i + n) (by omega), hrest, hsplit, wellFormed_encodeChar_append]
    · rw [if_neg hi, List.drop_of_length_le (by omega)]
      simp [wellFormed_nil]

theorem isValidUtf8_wellFormed (s : CString) :
    isValidUtf8 (some s) = true ↔ WellFormed s.bytes := by
  have h := validateFrom_iff s.bytes s.bytes.length 0 (by omega)
  rwa [List.drop_zero] at h

/-- The positions the loop of `is_valid_utf8` comes to. -/
inductive Scanned (bytes : Bytes) : ℕ → Prop where
  | start : Scanned bytes 0
  | advance {i n : ℕ} (h : Scanned bytes i) (hlt : i < bytes.length)
      (hseq : isValidUtf8Sequence (bytes.drop i) = some n) : Scanned bytes (i + n)

theorem isValidUtf8Sequence_bounds {bytes : Bytes} {i n : ℕ}
    (h : isValidUtf8Sequence (bytes.drop i) = some n) : 0 < n ∧ i + n ≤ bytes.length := by
  rw [isValidUtf8Sequence_eq] at h
  obtain ⟨c, rest, hsplit, hn⟩ := exists_char_of_sequenceLength h
  have hpos : 0 < n := by
    rw [hn]
    exact List.length_pos_iff.2 String.utf8EncodeChar_ne_nil
  have hlen := congrArg List.length hsplit
  rw [List.length_drop, List.length_append, ← hn] at hlen
  exact ⟨hpos, by omega⟩

theorem Scanned.le_length {bytes : Bytes} {i : ℕ} (h : Scanned bytes i) : i ≤ bytes.length := by
  cases h with
  | start => exact Nat.zero_le _
  | advance h hlt hseq => exact (isValidUtf8Sequence_bounds hseq).2

/-- More fuel than the length changes nothing: the loop has ended by then. -/
theorem validateFrom_fuel (bytes : Bytes) {fuel : ℕ} (h : bytes.length ≤ fuel) :
    validateFrom bytes fuel 0 = validateFrom bytes bytes.length 0 := by
  rw [Bool.eq_iff_iff, validateFrom_iff bytes fuel 0 (by omega),
    validateFrom_iff bytes bytes.length 0 (by omega)]

theorem encode_noNul {cs : List Char} : 0 ∉ encode cs ↔ ∀ c ∈ cs, c.toNat ≠ 0 := by
  simp only [encode, List.mem_flatMap, not_exists, not_and]
  refine forall₂_congr fun c _ => ?_
  by_cases hlow : c.toNat ≤ 0x7f
  · rw [encodeChar_one hlow, List.mem_singleton, not_iff_not, ← UInt8.toNat_inj]
    simp only [UInt8.toNat_ofNat', UInt8.toNat_zero]
    omega
  · refine iff_of_true (fun hmem => ?_) (by omega)
    exact absurd (encodeChar_high (by omega) 0 hmem) (by decide)

/-- The validator decides RFC 3629, inside the string and with its length as a bound. -/
theorem isValidUtf8_decides (s : CString) :
    (isValidUtf8 (some s) = true ↔
      ∃ cs : List Char, (∀ c ∈ cs, c.toNat ≠ 0) ∧ s.bytes = encode cs) ∧
    (∀ i, Scanned s.bytes i → i ≤ s.bytes.length ∧
      ∀ n, isValidUtf8Sequence (s.bytes.drop i) = some n → 0 < n) ∧
    ∀ fuel, s.bytes.length ≤ fuel → validateFrom s.bytes fuel 0 = isValidUtf8 (some s) := by
  refine ⟨?_, fun i hi => ⟨hi.le_length, fun n hn => (isValidUtf8Sequence_bounds hn).1⟩,
    fun fuel hf => validateFrom_fuel s.bytes hf⟩
  rw [isValidUtf8_wellFormed]
  refine exists_congr fun cs => ⟨fun hcs => ⟨?_, hcs⟩, And.right⟩
  exact encode_noNul.1 (hcs ▸ s.noNul)

end Salt.Utf8Validation
