import Mathlib.Data.List.DropRight
import Mathlib.Data.List.TakeDrop
import Mathlib.Tactic.Common

set_option autoImplicit false

/-!
# Byte strings, NUL-terminated strings and fixed-size buffers

A buffer is the list of its bytes, so its length is its allocated size. A
store outside it has no result. A C string is a list without the byte zero;
its image in memory is that list followed by the terminator.
-/
namespace ByteStrings

abbrev Bytes := List UInt8

/-- What holds of every byte of a string is decided along the string. -/
instance decidableForallMem {p : UInt8 → Prop} [DecidablePred p] (s : Bytes) :
    Decidable (∀ b ∈ s, p b) := List.decidableBAll p s

def ascii (s : String) : Bytes := s.toList.map (fun c => UInt8.ofNat c.toNat)

/-- The decimal digits printed by `%zu` and `%u`. -/
def decimal (n : ℕ) : Bytes := (Nat.toDigits 10 n).map (fun c => UInt8.ofNat c.toNat)

def strip {α : Type*} (p : α → Bool) (l : List α) : List α := (l.dropWhile p).rdropWhile p

section Strip
variable {α : Type*} (p : α → Bool)

theorem strip_nil : strip p [] = [] := by
  simp [strip]

theorem strip_eq_nil_iff (l : List α) : strip p l = [] ↔ ∀ x ∈ l, p x = true := by
  simp only [strip, List.rdropWhile_eq_nil_iff]
  constructor
  · intro h x hx
    rw [← List.takeWhile_append_dropWhile (p := p) (l := l)] at hx
    rcases List.mem_append.1 hx with hx | hx
    · exact (List.mem_takeWhile_imp hx)
    · exact h x hx
  · intro h x hx
    exact h x ((List.dropWhile_sublist p).subset hx)

/-- Stripping is determined by where the two kept ends lie. -/
theorem strip_append {lead core trail : List α} (hl : ∀ x ∈ lead, p x = true)
    (ht : ∀ x ∈ trail, p x = true) (hf : ∀ x ∈ core.head?, p x = false)
    (hb : ∀ x ∈ core.getLast?, p x = false) : strip p (lead ++ core ++ trail) = core := by
  cases core with
  | nil =>
    rw [strip_eq_nil_iff]
    intro x hx
    simp only [List.append_nil, List.mem_append] at hx
    exact hx.elim (hl x) (ht x)
  | cons c cs =>
    have hdrop : (lead ++ (c :: cs) ++ trail).dropWhile p = (c :: cs) ++ trail := by
      rw [List.append_assoc, List.dropWhile_append_of_pos hl]
      simp [hf c (by simp)]
    rw [strip, hdrop, List.rdropWhile, List.reverse_append,
      List.dropWhile_append_of_pos (by simpa using ht)]
    obtain ⟨d, ds, hd⟩ : ∃ d ds, (c :: cs).reverse = d :: ds :=
      List.exists_cons_of_ne_nil (by simp)
    have hlast : (c :: cs).getLast? = some d := by
      rw [List.getLast?_eq_head?_reverse, hd]; rfl
    rw [hd, List.dropWhile_cons_of_neg (by simp [hb d (by rw [hlast]; rfl)]), ← hd]
    simp

theorem strip_head (l : List α) : ∀ x ∈ (strip p l).head?, p x = false := by
  intro x hx
  obtain ⟨t, ht⟩ := List.rdropWhile_prefix p (l.dropWhile p)
  cases hs : strip p l with
  | nil => simp [hs] at hx
  | cons y ys =>
    obtain rfl : y = x := by simpa [hs] using hx
    unfold strip at hs
    have hd := List.head?_dropWhile_not p l
    rw [← ht, hs] at hd
    simpa using hd

theorem strip_last (l : List α) : ∀ x ∈ (strip p l).getLast?, p x = false := by
  intro x hx
  have hne : strip p l ≠ [] := by rintro h; simp [h] at hx
  have h := List.rdropWhile_last_not p (l.dropWhile p) hne
  rw [List.getLast?_eq_some_getLast hne] at hx
  obtain rfl : (strip p l).getLast hne = x := by simpa using hx
  simpa [strip] using h

theorem strip_strip (l : List α) : strip p (strip p l) = strip p l := by
  have h : strip p ([] ++ strip p l ++ []) = strip p l :=
    strip_append p (by simp) (by simp) (strip_head p l) (strip_last p l)
  simpa using h

theorem strip_dropWhile (l : List α) : strip p (l.dropWhile p) = strip p l := by
  unfold strip
  rw [List.dropWhile_idempotent]

end Strip

/-- A NUL-free list of bytes: the value of a `const char *`. -/
structure CString where
  bytes : Bytes
  noNul : 0 ∉ bytes
deriving DecidableEq

def CString.memory (s : CString) : Bytes := s.bytes ++ [0]

/-- The string a pointer to the start of a buffer denotes. -/
def cstr (buffer : Bytes) : Bytes := buffer.takeWhile (· ≠ 0)

theorem cstr_noNul (buffer : Bytes) : 0 ∉ cstr buffer := by
  intro h
  simpa using List.mem_takeWhile_imp h

def CString.ofBuffer (buffer : Bytes) : CString := ⟨cstr buffer, cstr_noNul buffer⟩

def CString.ofAscii (s : String) (h : 0 ∉ ascii s := by decide) : CString := ⟨ascii s, h⟩

theorem cstr_append_zero {s : Bytes} (h : 0 ∉ s) (rest : Bytes) : cstr (s ++ 0 :: rest) = s := by
  rw [cstr, List.takeWhile_append_of_pos]
  · simp
  · intro a ha
    have ha0 : a ≠ 0 := fun h0 => h (h0 ▸ ha)
    simpa using ha0

theorem cstr_of_noNul {s : Bytes} (h : 0 ∉ s) : cstr s = s := by
  rw [cstr, List.takeWhile_eq_self_iff]
  intro a ha
  have ha0 : a ≠ 0 := fun h0 => h (h0 ▸ ha)
  simpa using ha0

theorem exists_cstr_append {buffer : Bytes} (h : 0 ∈ buffer) :
    ∃ rest, buffer = cstr buffer ++ 0 :: rest := by
  induction buffer with
  | nil => simp at h
  | cons a b ih =>
    by_cases ha : a = 0
    · exact ⟨b, by simp [cstr, ha]⟩
    · obtain ⟨rest, hr⟩ := ih (by simpa [ha, Ne.symm ha, eq_comm] using h)
      refine ⟨rest, ?_⟩
      have hc : cstr (a :: b) = a :: cstr b := by simp [cstr, ha]
      rw [hc, List.cons_append, ← hr]

theorem cstr_length_lt {buffer : Bytes} (h : 0 ∈ buffer) : (cstr buffer).length < buffer.length := by
  obtain ⟨rest, hr⟩ := exists_cstr_append h
  have := congrArg List.length hr
  simp only [List.length_append, List.length_cons] at this
  omega

def store (buffer : Bytes) (i : ℕ) (v : UInt8) : Option Bytes :=
  if i < buffer.length then some (buffer.set i v) else none

def overwrite (buffer data : Bytes) : Bytes := data ++ buffer.drop data.length

theorem store_of_lt {buffer : Bytes} {i : ℕ} (h : i < buffer.length) (v : UInt8) :
    store buffer i v = some (buffer.set i v) := by
  simp [store, h]

theorem overwrite_length {buffer data : Bytes} (h : data.length ≤ buffer.length) :
    (overwrite buffer data).length = buffer.length := by
  simp only [overwrite, List.length_append, List.length_drop]
  omega

theorem set_append_right (a b : Bytes) (x v : UInt8) :
    (a ++ x :: b).set a.length v = a ++ v :: b := by
  simp

/-- `vsnprintf` truncates and always terminates. -/
def vsnprintf (buffer text : Bytes) : Bytes :=
  if buffer = [] then [] else overwrite buffer (text.take (buffer.length - 1) ++ [0])

theorem vsnprintf_length (buffer text : Bytes) : (vsnprintf buffer text).length = buffer.length := by
  unfold vsnprintf
  split_ifs with h
  · simp [h]
  · have : 0 < buffer.length := List.length_pos_iff.2 h
    apply overwrite_length
    simp only [List.length_append, List.length_take, List.length_singleton]
    omega

theorem cstr_vsnprintf {buffer text : Bytes} (hb : buffer ≠ []) (ht : 0 ∉ text) :
    cstr (vsnprintf buffer text) = text.take (buffer.length - 1) := by
  rw [vsnprintf, if_neg hb, overwrite, List.append_assoc, List.singleton_append]
  exact cstr_append_zero (fun h => ht (List.mem_of_mem_take h)) _

theorem zero_mem_vsnprintf {buffer : Bytes} (hb : buffer ≠ []) (text : Bytes) :
    0 ∈ vsnprintf buffer text := by
  simp [vsnprintf, hb, overwrite]

def setErrorBuffer (error : Option Bytes) (text : Bytes) : Option Bytes :=
  error.map (vsnprintf · text)

theorem setErrorBuffer_length (error : Option Bytes) (text : Bytes) :
    (setErrorBuffer error text).map List.length = error.map List.length := by
  cases error <;> simp [setErrorBuffer, vsnprintf_length]

def Reported (error error' : Option Bytes) : Prop :=
  ∀ buffer, error = some buffer → 2 ≤ buffer.length →
    ∃ buffer', error' = some buffer' ∧ buffer'.length = buffer.length ∧ 0 ∈ buffer' ∧
      cstr buffer' ≠ []

theorem setErrorBuffer_reported (error : Option Bytes) {text : Bytes} (h : cstr text ≠ []) :
    Reported error (setErrorBuffer error text) := by
  rintro buffer rfl hlen
  have hb : buffer ≠ [] := by
    rintro rfl
    simp at hlen
  refine ⟨vsnprintf buffer text, rfl, vsnprintf_length _ _, zero_mem_vsnprintf hb _, ?_⟩
  cases text with
  | nil => exact absurd rfl h
  | cons c text =>
    have hc : c ≠ 0 := by
      rintro rfl
      simp [cstr] at h
    obtain ⟨n, hn⟩ : ∃ n, buffer.length - 1 = n + 1 := ⟨buffer.length - 2, by omega⟩
    rw [vsnprintf, if_neg hb, hn, List.take_succ_cons]
    simp [overwrite, cstr, hc]

end ByteStrings
